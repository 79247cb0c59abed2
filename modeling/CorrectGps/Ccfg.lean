/-
The settings: what `Ccfg::readConfigFile` and `Cdbdo::readConfigFile` take
from the configuration file.

# Two readers of one file

Both read `correctgps.conf`, each into a map of its own that nothing
clears. `Ccfg` gives every member a value each time, its default if the
key is not bound; `Cdbdo` has its defaults from the constructor and leaves
a member alone whose key is not bound. A line without `=` stops the
process, and one on which the `strcpy` of `strtriml` overlaps may do
anything: both are `none` (Config.lean).

# The name of the file

It is the string that `getexedir` returns with `CONFIG_FILE` behind it.
That string is destroyed when `getexedir` returns, so the pointer shows
whatever is there then; `file` is what `fopen` finds under the name that
comes of it. It is never empty, so the branch for an empty one is left
out.

# Numbers

A number is what `atoi` makes of the value, stored in an `unsigned int`
by `Ccfg` and in an `int` by `Cdbdo`. What `atoi` is of a text that is no
number, or too great a one, is the C library's: it is a parameter.
-/
import CorrectGps.CClient
import CorrectGps.Config

namespace CorrectGps

open Lib

/-- `CONFIG_FILE` -/
def CONFIG_FILE : List UInt8 := bytes "/correctgps.conf".toList

/-- A key of the file. -/
def confKey (name : String) : List UInt8 := bytes name.toList

/-- The value of a member that is a `string`. -/
def stringSetting (kvmap : KEY_VAL_MAP) (name : String)
    (otherwise : List UInt8) : List UInt8 :=
  (kvmap.find (confKey name)).getD otherwise

/-- The value of a member that is a number. -/
def intSetting (atoi : List UInt8 → Int) (kvmap : KEY_VAL_MAP)
    (name : String) (otherwise : Int) : Int :=
  ((kvmap.find (confKey name)).map atoi).getD otherwise

/-- `class Ccfg` -/
structure Ccfg where
  kvmap : KEY_VAL_MAP
  carserver_port : UInt32
  carserver_ip : List UInt8
  carserv_domainname : List UInt8
  local_port : List UInt8
  max_clients : UInt32
  outtime_s : UInt32
  max_worker : UInt32

namespace Ccfg

/-- The members, given the map. -/
def ofMap (atoi : List UInt8 → Int) (kvmap : KEY_VAL_MAP) : Ccfg where
  kvmap := kvmap
  carserver_port :=
    UInt32.ofInt (intSetting atoi kvmap "CARSERVER_PORT" 81)
  carserver_ip :=
    stringSetting kvmap "CARSERVER_IP" (bytes "0.0.0.0".toList)
  carserv_domainname :=
    stringSetting kvmap "CARSERVER_DOMAINNAME" (bytes "localhost".toList)
  local_port := stringSetting kvmap "LOCAL_PORT" (bytes "8080".toList)
  max_clients :=
    UInt32.ofInt (intSetting atoi kvmap "MAX_CONNECTION_NUM" 50000)
  outtime_s := UInt32.ofInt (intSetting atoi kvmap "LINK_TIMEOUT" 30)
  max_worker := UInt32.ofInt (intSetting atoi kvmap "MAX_WORKER" 1)

/-- `readConfigFile()` -/
def readConfigFile (atoi : List UInt8 → Int) (file : Option (List UInt8))
    (cfg : Ccfg) : Option Ccfg :=
  (Strict.file_to_items file cfg.kvmap).map fun r => ofMap atoi r.2

end Ccfg

/-- The members of `class Cdbdo` that the file sets. -/
structure Cdbdo where
  kvmap : KEY_VAL_MAP
  m_strServerName : List UInt8
  m_strDBName : List UInt8
  m_strUserName : List UInt8
  m_strPassword : List UInt8
  m_port : Int

namespace Cdbdo

/-- `Cdbdo()` -/
def new : Cdbdo where
  kvmap := SortedMap.empty
  m_strServerName := bytes "localhost".toList
  m_strDBName := bytes "baidumaps".toList
  m_strUserName := bytes "test".toList
  m_strPassword := bytes "test".toList
  m_port := 3306

/-- `readConfigFile()` -/
def readConfigFile (atoi : List UInt8 → Int) (file : Option (List UInt8))
    (db : Cdbdo) : Option Cdbdo :=
  (Strict.file_to_items file db.kvmap).map fun r =>
    { kvmap := r.2
      m_strServerName := stringSetting r.2 "db_host_ip" db.m_strServerName
      m_strDBName := stringSetting r.2 "db_name" db.m_strDBName
      m_strUserName := stringSetting r.2 "db_user" db.m_strUserName
      m_strPassword := stringSetting r.2 "db_psw" db.m_strPassword
      m_port := intSetting atoi r.2 "db_port" db.m_port }

end Cdbdo

end CorrectGps

/-
`Csender::Send`: the text that is forwarded to the car server.

`sprintf` prints it into `data`, which nothing bounds. The source breaks
its format over several lines; the breaks are no part of it, the blanks
in front of them are. `xgps` and `ygps` are printed as doubles, so they
are given as such; of a client that no row matches they are `atof` of
its two texts.
-/
import CorrectGps.CClient
import CorrectGps.Lib.Double
import CorrectGps.Tools

namespace CorrectGps

open Lib

/-- `atof`, which is `strtod` past the blanks in front. -/
def atof (text : List UInt8) : Double := strtod (text.dropWhile isSpace)

/-- The members of `g_cfg` that `Send` prints. -/
structure Cfg where
  carserv_domainname : List UInt8
  carserver_port : Nat

namespace Csender

/-- Size of `data`. -/
def DATA_SIZE : Nat := 1024

/-- The request behind its two coordinates. -/
def header : List UInt8 := bytes (
  "\r\nConnection: keep-alive\r\nAccept: text/html;charset=utf-8\r\n ".toList
    ++ ("User-Agent: Mozilla/5.0 (Windows NT 5.1) AppleWebKit/537.22 ".toList
      ++ ("(KHTML, like Gecko) Chrome/25.0.1364.172 Safari/537.22 ".toList
        ++ ("Accept-Encoding: gzip,deflate ".toList
          ++ ("Accept-Language: zh;q=0.8,en-US;q=0.6,en;q=0.4 ".toList
            ++ "Accept-Charset: utf-8;q=0.7,*;q=0.3\r\n\r\n".toList)))))

/-- What `Send(obj)` prints into `data`, its NUL not counted. -/
def data (cfg : Cfg) (obj : CClient) (xgps ygps : Double) : List UInt8 :=
  [bytes "GET http://".toList, cfg.carserv_domainname, bytes ":".toList,
    decimal cfg.carserver_port,
    bytes "/api/navigate.api.php?serial=".toList, obj.str .serial,
    bytes "&md5=".toList, obj.str .md5, bytes "&xgps=".toList,
    fixed 8 xgps, bytes "&ygps=".toList, fixed 8 ygps,
    bytes " HTTP/1.1\r\nHost: ".toList, cfg.carserv_domainname,
    bytes ":".toList, decimal cfg.carserver_port, header].flatten

end Csender

end CorrectGps

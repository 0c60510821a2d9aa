import Mevent.Request.Tables
import Mevent.Library.OrderedMap

/-!
# `Response`

A handler collects header fields and a body; `Response::Flush` turns them into the
strings that the connection queues.  `util::GetGMTimeStr` is given by its value, `date`.
-/

namespace Mevent

open Library

/-- `Response`, without the pointer to its connection. -/
structure Response where
  headerMap : OrderedMap Bytes (List Bytes)
  wbuf : Bytes
  finish : Bool
  deriving DecidableEq, Repr

namespace Response

/-- `CRLF`. -/
def crlf : Bytes := [13, 10]

/-- `SERVER`. -/
def server : Bytes := ascii "mevent".toList

/-- `std::to_string`. -/
def toString (number : Nat) : Bytes := ascii (Nat.toDigits 10 number)

/-- `Response::Reset`, which the constructor calls as well. -/
def reset : Response where
  headerMap := []
  wbuf := []
  finish := false

/-- `HTTP_400_MSG` to `HTTP_500_MSG`, given the words of the status line. -/
def errorPage (status : Bytes) : Bytes :=
  ascii "<html><head><title>".toList ++ status ++ ascii "</title></head><body><h1>".toList ++
    status ++ ascii "</h1><hr><address>".toList ++ server ++
    ascii "</address></body></html>".toList

/-- The string that `WriteErrorMessage` queues: `measured` is the message whose size it
announces, `page` the one it sends. -/
def errorMessage (status measured page date : Bytes) : Bytes :=
  ascii "HTTP/1.1 ".toList ++ status ++ crlf ++
    ascii "Server: ".toList ++ server ++ crlf ++
    ascii "Content-Type: text/html".toList ++ crlf ++
    ascii "Content-Length: ".toList ++ toString measured.length ++ crlf ++
    ascii "Date: ".toList ++ date ++ crlf ++
    ascii "Connection: close".toList ++ crlf ++ crlf ++ page

def badRequest : Bytes := ascii "400 Bad Request".toList
def forbidden : Bytes := ascii "403 Forbidden".toList
def notFound : Bytes := ascii "404 Not Found".toList
def internalServerError : Bytes := ascii "500 Internal Server Error".toList

/-- The `switch` of `WriteErrorMessage`.  The answer to a bad request announces the
size of `HTTP_403_MSG`. -/
def errorText (code : Int) (date : Bytes) : Bytes :=
  if code = 400 then
    errorMessage badRequest (errorPage forbidden) (errorPage badRequest) date
  else if code = 403 then
    errorMessage forbidden (errorPage forbidden) (errorPage forbidden) date
  else if code = 404 then
    errorMessage notFound (errorPage notFound) (errorPage notFound) date
  else
    errorMessage internalServerError (errorPage internalServerError)
      (errorPage internalServerError) date

/-- `Response::WriteErrorMessage` up to what it hands to its connection, `errorText`. -/
def writeErrorMessage (resp : Response) : Response :=
  { resp with wbuf := [], finish := true }

/-- `Response::WriteString` and `Response::WriteData`. -/
def write (resp : Response) (bytes : Bytes) : Response :=
  { resp with wbuf := resp.wbuf ++ bytes }

/-- `Response::SetHeader`. -/
def setHeader (resp : Response) (field value : Bytes) : Response :=
  if field = [] ∨ value = [] then
    resp
  else
    { resp with headerMap := resp.headerMap.insert field [value] }

/-- `Response::AddHeader`. -/
def addHeader (resp : Response) (field value : Bytes) : Response :=
  if field = [] ∨ value = [] then
    resp
  else
    let values := (resp.headerMap.find? field).getD []
    { resp with headerMap := resp.headerMap.insert field (values ++ [value]) }

/-- `Response::DelHeader`. -/
def delHeader (resp : Response) (field : Bytes) : Response :=
  { resp with headerMap := resp.headerMap.erase field }

def serverField : Bytes := ascii "Server".toList
def dateField : Bytes := ascii "Date".toList
def contentTypeField : Bytes := ascii "Content-Type".toList
def contentLengthField : Bytes := ascii "Content-Length".toList
def connectionField : Bytes := ascii "Connection".toList

def headerLine (field value : Bytes) : Bytes := field ++ ascii ": ".toList ++ value ++ crlf

/-- A field that `MakeHeader` adds where the handler has not set it. -/
def defaultLine (resp : Response) (field value : Bytes) : Bytes :=
  if (resp.headerMap.find? field).isNone then headerLine field value else []

/-- `Response::MakeHeader`: the map with the field that it sets, and the header. -/
def makeHeader (resp : Response) (date : Bytes) : Response × Bytes :=
  let defaults := ascii "HTTP/1.1 200 OK".toList ++ crlf ++
    resp.defaultLine serverField server ++ resp.defaultLine dateField date ++
    resp.defaultLine contentTypeField (ascii "application/octet-stream".toList)
  let headerMap := resp.headerMap.insert connectionField [ascii "close".toList]
  let lines := headerMap.flatMap fun entry => entry.2.flatMap (headerLine entry.1)
  ({ resp with headerMap := headerMap }, defaults ++ lines ++ crlf)

/-- `Response::Flush`, with the strings that it hands to its connection. -/
def flush (resp : Response) (date : Bytes) : Response × List Bytes :=
  if resp.wbuf = [] then
    ({ resp with finish := true }, [])
  else
    let announced := { resp with
      finish := true
      headerMap := resp.headerMap.insert contentLengthField [toString resp.wbuf.length] }
    let made := announced.makeHeader date
    (made.1, [made.2, resp.wbuf])

/-- Whatever a response holds, `Flush` marks it as finished. -/
theorem finish_flush (resp : Response) (date : Bytes) : (resp.flush date).1.finish = true := by
  unfold flush
  split
  · rfl
  · rfl

end Response

end Mevent

import AnnotationReport.Log.Entry
import AnnotationReport.Text.Unicode
import AnnotationReport.Url.Basic

/-! # HTTP

Requests for resources and what becomes of them. What carries the requests, and what the HTTP library makes
of an answer on its own account, are not part of the program: they are given.
-/
namespace AnnotationReport.Http

/-- Headers have lower-case names and occur once. -/
abbrev Headers := List (String × String)

/-- The headers, and of the further ones those that are not there yet. -/
def Headers.filled (headers further : Headers) : Headers :=
  headers ++ further.filter fun h => (headers.lookup h.1).isNone

/-- A request as the client hands it over. The transport adds the headers of the connection to it, such as
the host and the encodings that it accepts. -/
structure Request where
  verb : String
  url : Url
  headers : Headers

def Request.method : String := "GET"

/-- The address in a request: without credentials, and without a fragment. -/
def Request.address (r : Request) : String := String.ofList r.url.anonymous.requestChars

/-- A content type without parameters, or none at all. It names no character set. -/
def Bare (contentType : Option String) : Prop := ∀ t ∈ contentType, '=' ∉ t.toList

instance (contentType : Option String) : Decidable (Bare contentType) :=
  inferInstanceAs (Decidable (∀ t ∈ contentType, '=' ∉ t.toList))

/-- How bodies are read as text: by the character set that the content type names, and where it names none
as Unicode. -/
structure Decoder where
  text : Option String → List UInt8 → String
  text_of_bare : ∀ {contentType : Option String}, Bare contentType →
    ∀ bytes, text contentType bytes = String.ofList (Text.Unicode.decode bytes)

def Decoder.unicode : Decoder := ⟨fun _ bytes => String.ofList (Text.Unicode.decode bytes), fun _ _ => rfl⟩

/-- An answer; a body that broke off is none. The causes are what there is to say, and by whom, if the body
broke off or is not what was asked for. -/
structure Response where
  status : Nat
  contentType : Option String
  body : Option (List UInt8)
  causes : List String

def Response.isSuccess (r : Response) : Bool := 200 ≤ r.status && r.status < 300

/-- What an answer says; a body that broke off says nothing. -/
def Response.text (decoder : Decoder) (r : Response) : String := r.body.elim "" (decoder.text r.contentType)

inductive Reply where
  /-- The request could not be sent. -/
  | unsent (causes : List String)
  /-- The request was sent and the connection ended without an answer. -/
  | unanswered (causes : List String)
  | answered (response : Response)

def Reply.isSent : Reply → Bool
  | .unsent _ => false
  | _ => true

/-- The HTTP library and the network behind it. Redirects are followed inside it, so a reply is the last one.
It may refuse to be set up for a client, and it leaves log entries of its own for a request. -/
structure Transport where
  refusal : Option (List String)
  send : Request → Reply
  events : Request → List Log.Entry
  decoder : Decoder

/-- A transport of which nothing but the replies matters. -/
def Transport.plain (send : Request → Reply) : Transport := ⟨none, send, fun _ => [], .unicode⟩

def Transport.offline : Transport := .plain fun _ => .unsent []

def Transport.record (t : Transport) (request : Request) : StateM (Array Request) Reply := do
  let reply := t.send request
  if reply.isSent then modify (·.push request)
  pure reply

def reasons : List (Nat × String) :=
  [(100, "Continue"), (101, "Switching Protocols"), (102, "Processing"), (103, "Early Hints"),
    (200, "OK"), (201, "Created"), (202, "Accepted"), (203, "Non Authoritative Information"),
    (204, "No Content"), (205, "Reset Content"), (206, "Partial Content"), (207, "Multi-Status"),
    (208, "Already Reported"), (226, "IM Used"), (300, "Multiple Choices"),
    (301, "Moved Permanently"), (302, "Found"), (303, "See Other"), (304, "Not Modified"),
    (305, "Use Proxy"), (307, "Temporary Redirect"), (308, "Permanent Redirect"),
    (400, "Bad Request"), (401, "Unauthorized"), (402, "Payment Required"), (403, "Forbidden"),
    (404, "Not Found"), (405, "Method Not Allowed"), (406, "Not Acceptable"),
    (407, "Proxy Authentication Required"), (408, "Request Timeout"), (409, "Conflict"),
    (410, "Gone"), (411, "Length Required"), (412, "Precondition Failed"),
    (413, "Payload Too Large"), (414, "URI Too Long"), (415, "Unsupported Media Type"),
    (416, "Range Not Satisfiable"), (417, "Expectation Failed"), (418, "I'm a teapot"),
    (421, "Misdirected Request"), (422, "Unprocessable Entity"), (423, "Locked"),
    (424, "Failed Dependency"), (425, "Too Early"), (426, "Upgrade Required"),
    (428, "Precondition Required"), (429, "Too Many Requests"),
    (431, "Request Header Fields Too Large"), (451, "Unavailable For Legal Reasons"),
    (500, "Internal Server Error"), (501, "Not Implemented"), (502, "Bad Gateway"),
    (503, "Service Unavailable"), (504, "Gateway Timeout"), (505, "HTTP Version Not Supported"),
    (506, "Variant Also Negotiates"), (507, "Insufficient Storage"), (508, "Loop Detected"),
    (510, "Not Extended"), (511, "Network Authentication Required")]

def reason (status : Nat) : String := (reasons.lookup status).getD "<unknown status code>"

def statusText (status : Nat) : String :=
  String.ofList (Text.decimal status) ++ " " ++ reason status

end AnnotationReport.Http

import AnnotationReport.Url.Parser

/-! # The base URL of the API

The URL below which all requests lie. The text is given exactly one slash at its end before it is
read, and the URL has to be one that segments can be added to.
-/
namespace AnnotationReport.ApiUrl

def fallback : String := "https://api.github.com"

def slashed (text : List Char) : List Char :=
  (text.reverse.dropWhile (· = '/')).reverse ++ ['/']

def ofChars [Url.Idna] (text : List Char) : Except Url.Error Url :=
  (Url.ofChars (slashed text)).bind fun url => if url.isBase then .ok url else .error .noBase

def ofText [Url.Idna] (text : String) : Except Url.Error Url := ofChars text.toList

end AnnotationReport.ApiUrl

import HttpWire.MediaType.Parser
import HttpWire.Protocol
import HttpWire.Uri.Parser

/-! What can go wrong in an exchange, and the words for it. -/
namespace HttpWire

/-- How an operation on a connection fails. -/
inductive IoError
  | interrupted | connectionReset | notConnected | brokenPipe | unexpectedEof | timedOut
  | connectionRefused | connectionAborted | permissionDenied | wouldBlock | other | writeZero
deriving DecidableEq, Repr

def IoError.message : IoError → String
  | .interrupted => "operation interrupted"
  | .connectionReset => "connection reset"
  | .notConnected => "not connected"
  | .brokenPipe => "broken pipe"
  | .unexpectedEof => "unexpected end of file"
  | .timedOut => "timed out"
  | .connectionRefused => "connection refused"
  | .connectionAborted => "connection aborted"
  | .permissionDenied => "permission denied"
  | .wouldBlock => "operation would block"
  | .other => "other error"
  | .writeZero => "write zero"

/-- How the network refuses, with the number the operating system has for it. -/
inductive NetworkError
  | addressNotAvailable | networkUnreachable | connectionRefused
deriving DecidableEq, Repr

def NetworkError.message : NetworkError → String
  | .addressNotAvailable => "Cannot assign requested address (os error 99)"
  | .networkUnreachable => "Network is unreachable (os error 101)"
  | .connectionRefused => "Connection refused (os error 111)"

inductive TcpError
  | missingHost
  | missingPort
  | bind (cause : NetworkError)
  | connect (cause : NetworkError)
deriving DecidableEq, Repr

def TcpError.message : TcpError → String
  | .missingHost => "missing host: invalid URI"
  | .missingPort => "missing port: invalid URI"
  | .bind cause => "tcp bind local address: " ++ cause.message
  | .connect cause => "tcp connect error: " ++ cause.message

inductive ConnectError
  | refused
  | tcp (cause : TcpError)
deriving DecidableEq, Repr

def ConnectError.message : ConnectError → String
  | .refused => "connection error"
  | .tcp cause => cause.message

def Field.Problem.message : Field.Problem → String
  | .invalidName name => "invalid header name: " ++ Text.quoted name
  | .invalidValue name value => "invalid header value for " ++ name ++ ": " ++ Text.quoted value

def Field.Repeated.message (e : Field.Repeated) : String :=
  "more than one value for header " ++ e.name

/-- Why the octets of a response head are refused. -/
inductive HeadError
  | malformedStatusLine (line : String)
  | unsupportedVersion (version : String)
  | malformedField (line : String)
  | field (problem : Field.Problem)
  | lineTooLong (limit : Nat)
deriving DecidableEq, Repr

def HeadError.message : HeadError → String
  | .malformedStatusLine line => "malformed status line: " ++ Text.quoted line
  | .unsupportedVersion version => "unsupported protocol version: " ++ Text.quoted version
  | .malformedField line => "malformed header line: " ++ Text.quoted line
  | .field problem => problem.message
  | .lineTooLong limit => "line exceeds " ++ toString limit ++ " bytes"

inductive Error
  | connect (cause : ConnectError)
  | io (cause : IoError)
  | head (cause : HeadError)
  | mediaType (cause : MediaType.ParseError)
  /-- The input ended inside the response head. -/
  | prematureEof
  /-- The input ended before the declared length of the body. -/
  | bodyTruncated (expected received : Nat)
  | unsupportedVersion (version : Version)
  | bodyNotAllowed (method : Method)
  | invalidScheme
  | missingHost
  | invalidUri (cause : Uri.ParseError)
  | invalidMethod
  | field (problem : Field.Problem)
  | repeatedField (cause : Field.Repeated)
  | unsupportedCharset (label : String)
  | invalidText
  /-- There is nothing to run requests on. -/
  | noExecutor
  /-- The request ended without a result. -/
  | canceled
deriving DecidableEq

def Error.message : Error → String
  | .connect cause => "connect: " ++ cause.message
  | .io cause => "io: " ++ cause.message
  | .head cause => "decode: " ++ cause.message
  | .mediaType cause => "content-type: " ++ cause.message
  | .prematureEof => "connection closed before the response header was complete"
  | .bodyTruncated expected received =>
    "response body truncated: expected " ++ toString expected ++ " bytes, received " ++
      toString received
  | .unsupportedVersion version => "unsupported protocol version: " ++ version.text
  | .bodyNotAllowed method => method.name ++ " requests can not carry a body"
  | .invalidScheme => "URI scheme must be http or https"
  | .missingHost => "URI is missing a host"
  | .invalidUri cause => "invalid URI: " ++ cause.message
  | .invalidMethod => "invalid method: invalid HTTP method"
  | .field problem => problem.message
  | .repeatedField cause => cause.message
  | .unsupportedCharset label => "unsupported charset: " ++ label
  | .invalidText => "body is not valid text in its charset"
  | .noExecutor => "no tokio runtime available"
  | .canceled => "request was canceled"

end HttpWire

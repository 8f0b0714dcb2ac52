import HttpWire.Header.Cursor
import HttpWire.Proofs.Body.Calls
import HttpWire.Proofs.Body.Passes
import HttpWire.Proofs.Charset.Encodings
import HttpWire.Proofs.Connection.Pipe
import HttpWire.Proofs.Exchange.Accounting
import HttpWire.Proofs.Exchange.Buffering
import HttpWire.Proofs.Exchange.Order
import HttpWire.Proofs.Exchange.Sending
import HttpWire.Proofs.Head.Refusal
import HttpWire.Proofs.Header.Equality
import HttpWire.Proofs.Header.Multimap
import HttpWire.Proofs.MediaType.Rendering
import HttpWire.Proofs.Packet.Sharing
import HttpWire.Proofs.Request.Calls
import HttpWire.Proofs.Request.Destination
import HttpWire.Proofs.Request.Framing
import HttpWire.Proofs.Request.Readback
import HttpWire.Proofs.Response.Closing
import HttpWire.Proofs.Response.Length
import HttpWire.Session.Requests
import HttpWire.Stepwise.Script
import HttpWire.Proofs.Head.Taken

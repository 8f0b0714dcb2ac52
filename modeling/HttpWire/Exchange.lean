import HttpWire.Exchange.HeadReader
import HttpWire.Exchange.Writer
import HttpWire.Response

/-! One exchange: a request is written to a connection, and the head of the response is read. It can
go on in turns, so that several exchanges with one far side are under way together. -/
namespace HttpWire

/-- The size of each read, and the longest line of a response head. -/
structure Limits where
  packetSize : Nat
  maxLine : Nat
deriving DecidableEq, Repr

namespace Limits

def default : Limits := ⟨PacketReader.defaultPacketSize, Head.Decoder.defaultMaxLine⟩

/-- The limits for a version of the protocol, if it is spoken. -/
def ofVersion (v : Version) : Except Error Limits :=
  if v = .http11 then .ok default else .error (.unsupportedVersion v)

end Limits

namespace Exchange

inductive Stage
  | writing (writer : RequestWriter)
  /-- The request could not be written. -/
  | abandoning (encoding : Request.Encoding) (cause : Error)
  /-- The request is written. Its encoding is kept for the record. -/
  | reading (encoding : Request.Encoding) (reader : HeadReader)
  /-- The connection is not needed for the result, and is shut down first. -/
  | ending (encoding : Request.Encoding) (source : PacketReader) (result : Except Error Response)

end Exchange

structure Exchange where
  method : Method
  limits : Limits
  stage : Exchange.Stage

namespace Exchange
variable {σ : Type} [Connection σ]

def new (r : Request) (limits : Limits) : Exchange :=
  ⟨r.method, limits, .writing (.new r.encode)⟩

/-- The request as it was encoded so far. -/
def encoding (x : Exchange) : Request.Encoding :=
  match x.stage with
  | .writing writer => writer.encoding
  | .abandoning encoding _ => encoding
  | .reading encoding _ => encoding
  | .ending encoding _ _ => encoding

/-- The response that starts with this head, if its media type can be read or it has no body. -/
def respond (method : Method) (source : PacketReader) (head : Head) (leftover : Octets) :
    Except Error Response :=
  if Response.carriesBody method head.status then
    match Response.declaredType head.headers with
    | .error e => .error e
    | .ok mediaType =>
      let reader := BodyReader.new source (Response.declaredLength head.headers) leftover
      .ok ⟨head.status, head.reason, head.headers, some ⟨mediaType, reader⟩⟩
  else .ok ⟨head.status, head.reason, head.headers, none⟩

/-- What follows the result. Only the body of a response keeps its connection. -/
def conclude (x : Exchange) (encoding : Request.Encoding) (source : PacketReader)
    (result : Except Error Response) : Except Error (Step Response) × Exchange :=
  match result with
  | .ok ⟨status, reason, headers, some body⟩ =>
    (.ok (.done ⟨status, reason, headers, some body⟩), x)
  | result => (.ok .more, { x with stage := .ending encoding source result })

/-- One step. When the request cannot be written its body is closed and the connection shut down,
and what goes wrong with that does not count. -/
def step (x : Exchange) (s : σ) : Progress (Except Error (Step Response)) × Exchange × σ :=
  match x.stage with
  | .writing writer =>
    match writer.step s with
    | (.ready (.ok .more), writer, s) =>
      (.ready (.ok .more), { x with stage := .writing writer }, s)
    | (.ready (.ok (.done _)), writer, s) =>
      let reader := HeadReader.new (.new x.limits.packetSize) x.limits.maxLine
      (.ready (.ok .more), { x with stage := .reading writer.encoding reader }, s)
    | (.ready (.error e), writer, s) =>
      (.ready (.ok .more), { x with stage := .abandoning writer.encoding e }, s)
    | (.again, writer, s) => (.again, { x with stage := .writing writer }, s)
    | (.stalled, writer, s) => (.stalled, { x with stage := .writing writer }, s)
  | .abandoning encoding cause =>
    (.ready (.error cause), { x with stage := .abandoning encoding.close.2 cause },
      Connection.release (Connection.shutdown s).2)
  | .reading encoding reader =>
    match reader.step s with
    | (.ready (.ok .more), reader, s) =>
      (.ready (.ok .more), { x with stage := .reading encoding reader }, s)
    | (.ready (.ok (.done (head, leftover))), reader, s) =>
      let (result, x) :=
        x.conclude encoding reader.source (respond x.method reader.source head leftover)
      (.ready result, x, s)
    | (.ready (.error e), reader, s) =>
      let (result, x) := x.conclude encoding reader.source (.error e)
      (.ready result, x, s)
    | (.again, reader, s) => (.again, { x with stage := .reading encoding reader }, s)
    | (.stalled, reader, s) => (.stalled, { x with stage := .reading encoding reader }, s)
  | .ending _ source result => (.ready (result.map .done), x, (source.shutdown s).2.2)

/-- A bound on the steps to come, those that the connection can bring on apart. -/
def share (x : Exchange) : Nat :=
  match x.stage with
  | .writing writer => writer.share + 2
  | .reading _ _ => 1
  | _ => 0

/-- A response with a body ends the exchange. With any other result the connection is shut down
first. -/
theorem conclude_cases (x : Exchange) (encoding : Request.Encoding) (source : PacketReader)
    (result : Except Error Response) :
    (∃ response, result = .ok response ∧ response.body.isSome = true ∧
      x.conclude encoding source result = (.ok (.done response), x)) ∨
    (∀ response, result = .ok response → response.body = none) ∧
      x.conclude encoding source result =
        (.ok .more, { x with stage := .ending encoding source result }) := by
  match result with
  | .error e => exact .inr ⟨fun response h => by simp at h, rfl⟩
  | .ok ⟨status, reason, headers, none⟩ =>
    exact .inr ⟨fun response h => by rw [← Except.ok.inj h], rfl⟩
  | .ok ⟨status, reason, headers, some body⟩ => exact .inl ⟨_, rfl, rfl, rfl⟩

theorem share_conclude {x : Exchange} {encoding : Request.Encoding} {source : PacketReader}
    {result : Except Error Response} (h : (x.conclude encoding source result).1 = .ok .more) :
    (x.conclude encoding source result).2.share = 0 := by
  obtain ⟨response, -, -, hconclude⟩ | ⟨-, hconclude⟩ := x.conclude_cases encoding source result
  · rw [hconclude] at h
    simp at h
  · rw [hconclude]
    rfl

instance : Stepwise (Exchange × σ) Response where
  step t := t.1.step t.2
  supply t := Connection.supply t.2 + t.1.share
  supply_more {m m'} h := by
    obtain ⟨x, s⟩ := m
    simp only [step] at h
    split at h
    · rename_i writer hx
      have hshare : x.share = writer.share + 2 := by simp only [share, hx]
      have hle := writer.supply_step_le s
      split at h <;> rename_i hw <;> simp only [hw] at hle <;>
        simp only [Prod.mk.injEq, true_and, reduceCtorEq, false_and] at h <;> subst h
      · have := Stepwise.supply_more (m := (writer, s)) hw
        simp only [Stepwise.supply, RequestWriter.supply] at this
        dsimp only [share] at hshare ⊢
        omega
      · dsimp only [share] at hshare ⊢
        omega
      · dsimp only [share] at hshare ⊢
        omega
    · simp at h
    · rename_i encoding reader hx
      have hshare : x.share = 1 := by simp only [share, hx]
      have hle := reader.supply_step_le s
      split at h <;> rename_i hr <;> simp only [hr] at hle
      · simp only [Prod.mk.injEq, true_and] at h
        subst h
        have := Stepwise.supply_more (m := (reader, s)) hr
        simp only [Stepwise.supply] at this
        dsimp only [share] at hshare ⊢
        omega
      · simp only [Prod.mk.injEq, Progress.ready.injEq] at h
        obtain ⟨h, rfl⟩ := h
        have := share_conclude h
        dsimp only
        omega
      · simp only [Prod.mk.injEq, Progress.ready.injEq] at h
        obtain ⟨h, rfl⟩ := h
        have := share_conclude h
        dsimp only
        omega
      · simp at h
      · simp at h
    · rename_i encoding source result hx
      cases result <;> simp [Except.map] at h
  supply_again {m m'} h := by
    obtain ⟨x, s⟩ := m
    simp only [step] at h
    split at h
    · rename_i writer hx
      split at h <;> simp only [Prod.mk.injEq, true_and, reduceCtorEq, false_and] at h
      rename_i hw
      subst h
      have := Stepwise.supply_again (m := (writer, s)) hw
      simp only [Stepwise.supply, RequestWriter.supply] at this
      simp only [share, hx]
      omega
    · simp at h
    · rename_i encoding reader hx
      split at h <;> simp only [Prod.mk.injEq, true_and, reduceCtorEq, false_and] at h
      rename_i hr
      subst h
      have := Stepwise.supply_again (m := (reader, s)) hr
      simp only [Stepwise.supply] at this
      simp only [share, hx]
      omega
    · simp at h

/-- Go on until there is a response or an error. There is neither if the connection stalls. -/
def run (x : Exchange) (s : σ) : Option (Except Error Response) × Exchange × σ :=
  Stepwise.drive (x, s)

/-- Whether the next step counts in a turn: each packet that is asked for does, and so does the end
of the request or of the connection. A read that goes on is counted already. -/
def counts (x : Exchange) : Bool :=
  match x.stage with
  | .writing writer => writer.stage = .pull
  | .abandoning _ _ => true
  | .reading _ reader => !reader.waiting
  | .ending _ _ _ => true

/-- How many steps that count one turn may have. -/
def allowance : Nat := 128

def turn (x : Exchange) (s : σ) : Stepwise.Turn Response × Exchange × σ :=
  Stepwise.turn (fun t : Exchange × σ => t.1.counts) allowance (x, s)

end Exchange
end HttpWire

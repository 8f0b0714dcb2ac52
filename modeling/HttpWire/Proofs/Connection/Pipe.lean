import HttpWire.Connection.Pipe

/-! A pipe under any sequence of calls, at its far end and at any number of connections. Reads bring
what was pushed, in order and no two chunks at once, and what is written is what the writes have
accepted (`run_faithful`). -/
namespace HttpWire.Pipe

/-- What a connection can be asked for. -/
inductive Operation
  /-- To read into a buffer of `n` octets. -/
  | read (n : Nat)
  | write (b : Octets)
  | flush
  | shutdown
  | release

/-- What can be done to a pipe: at its far end, or by connection `i`. -/
inductive Call
  | push (chunk : Octets)
  | finish
  | on (i : Nat) (op : Operation)

inductive Reply
  | done (result : Except IoError Unit)
  | read (result : Progress (Except IoError Octets))
  | write (result : Progress (Except IoError Nat))

/-- A call and what it has come to. -/
abbrev Entry := Call × Reply

def operate : Operation → Pipe → Reply × Pipe
  | .read n, p =>
    let (result, p) := Connection.read n p
    (.read result, p)
  | .write b, p =>
    let (result, p) := Connection.write b p
    (.write result, p)
  | .flush, p =>
    let (result, p) := Connection.flush p
    (.done result, p)
  | .shutdown, p =>
    let (result, p) := Connection.shutdown p
    (.done result, p)
  | .release, p => (.done (.ok ()), Connection.release p)

/-- Connections hold nothing of their own, so that it makes no difference which of them is asked. -/
def perform : Call → Pipe → Reply × Pipe
  | .push chunk, p => (.done (.ok ()), p.push chunk)
  | .finish, p => (.done (.ok ()), p.finish)
  | .on _ op, p => p.operate op

/-- One call after the other, each with its reply. -/
def run : List Call → Pipe → List Entry × Pipe
  | [], p => ([], p)
  | call :: calls, p =>
    let (reply, p) := p.perform call
    let (log, p) := run calls p
    ((call, reply) :: log, p)

namespace Call

def chunks : Call → List Octets
  | push chunk => [chunk]
  | _ => []

def isFinish : Call → Bool
  | finish => true
  | _ => false

def isShutdown : Call → Bool
  | on _ .shutdown => true
  | _ => false

end Call

namespace Reply

/-- The octets that a read has brought. -/
def octets : Reply → Octets
  | read (.ready (.ok b)) => b
  | _ => []

/-- The same as a piece of its own, but for a read that has brought nothing. -/
def pieces (r : Reply) : List Octets := [r.octets].filter (· ≠ [])

end Reply

/-- The octets that a write has accepted: the first of those that it was offered. -/
def Entry.accepted : Entry → Octets
  | (.on _ (.write b), .write (.ready (.ok n))) => b.take n
  | _ => []

/-- The chunks that were pushed, in order. -/
def pushed (log : List Entry) : List Octets := log.flatMap fun e => e.1.chunks

/-- What the reads have brought, one by one. -/
def pieces (log : List Entry) : List Octets := log.flatMap fun e => e.2.pieces

/-- What the reads have brought in all. -/
def received (log : List Entry) : Octets := log.flatMap fun e => e.2.octets

def wasFinished (log : List Entry) : Bool := log.any fun e => e.1.isFinish

def wasShutDown (log : List Entry) : Bool := log.any fun e => e.1.isShutdown

/-- Reads need not wait any more. -/
def wasSignalled (log : List Entry) : Bool := wasFinished log || wasShutDown log

/-- Nothing is queued: all that was pushed has been read. -/
def IsDrained (log : List Entry) : Prop := received log = (pushed log).flatten

/-- The chunks come in these pieces: the first few make up the first chunk, the next few the second.
So no piece has octets of two chunks. -/
inductive InPieces : List Octets → List Octets → Prop
  | nil : InPieces [] []
  | cons (parts : List Octets) {chunks pieces : List Octets} (h : InPieces chunks pieces) :
    InPieces (parts.flatten :: chunks) (parts ++ pieces)

/-- What a read into a buffer of `n` octets comes to after these entries. -/
structure ReadReply (log : List Entry) (n : Nat) (reply : Reply) : Prop where
  stalled_or_octets : reply = .read .stalled ∨ ∃ b, reply = .read (.ready (.ok b)) ∧ b.length ≤ n
  stalled_iff : reply = .read .stalled ↔ IsDrained log ∧ wasSignalled log = false
  ended_iff : 0 < n →
    (reply = .read (.ready (.ok [])) ↔ IsDrained log ∧ wasSignalled log = true)

/-- How many of `n` octets a write accepts. -/
def room (limit : Option Nat) (n : Nat) : Nat := limit.elim n fun most => min n (max 1 most)

/-- What a write of `b` comes to after these entries. -/
def writeReply (limit : Option Nat) (log : List Entry) (b : Octets) : Reply :=
  .write (.ready (if wasShutDown log then .error .brokenPipe else .ok (room limit b.length)))

/-- What a call comes to after these entries. -/
def Replies (limit : Option Nat) (log : List Entry) : Call → Reply → Prop
  | .on _ (.read n), reply => ReadReply log n reply
  | .on _ (.write b), reply => reply = writeReply limit log b
  | _, reply => reply = .done (.ok ())

/-- What holds of a pipe with this limit on writes, whatever was called. -/
structure Faithful (limit : Option Nat) (log : List Entry) (p : Pipe) : Prop where
  received_append_queue : received log ++ p.queue.flatten = (pushed log).flatten
  inPieces : InPieces (pushed log) (pieces log ++ p.queue)
  replies : ∀ before call reply, before ++ [(call, reply)] <+: log →
    Replies limit before call reply
  written_eq : p.written = log.flatMap Entry.accepted
  /-- Nothing more is written once a connection was shut down. -/
  written_run_of_shutDown : wasShutDown log = true → ∀ calls, (p.run calls).2.written = p.written

namespace InPieces
variable {as bs cs : List Octets}

theorem refl (as : List Octets) : InPieces as as := by
  induction as with
  | nil => exact .nil
  | cons a as ih =>
    have h := InPieces.cons [a] ih
    rwa [List.flatten_singleton] at h

theorem of_eq (h : as = bs) : InPieces as bs := h ▸ .refl as

theorem flatten_eq (h : InPieces as bs) : bs.flatten = as.flatten := by
  induction h with
  | nil => rfl
  | cons parts h ih => rw [List.flatten_append, ih, List.flatten_cons]

theorem append {as' bs' : List Octets} (h : InPieces as bs) (h' : InPieces as' bs') :
    InPieces (as ++ as') (bs ++ bs') := by
  induction h with
  | nil => exact h'
  | cons parts h ih =>
    rw [List.cons_append, List.append_assoc]
    exact .cons parts ih

theorem exists_append (h : InPieces (as ++ bs) cs) :
    ∃ xs ys, cs = xs ++ ys ∧ InPieces as xs ∧ InPieces bs ys := by
  induction as generalizing cs with
  | nil => exact ⟨[], cs, rfl, .nil, h⟩
  | cons a as ih =>
    cases h with
    | cons parts h =>
      obtain ⟨xs, ys, rfl, hxs, hys⟩ := ih h
      exact ⟨parts ++ xs, ys, (List.append_assoc _ _ _).symm, .cons parts hxs, hys⟩

/-- The pieces may come in pieces themselves. -/
theorem trans (h : InPieces as bs) (h' : InPieces bs cs) : InPieces as cs := by
  induction h generalizing cs with
  | nil => exact h'
  | cons parts h ih =>
    obtain ⟨xs, ys, rfl, hxs, hys⟩ := h'.exists_append
    rw [← hxs.flatten_eq]
    exact .cons xs (ih hys)

end InPieces

theorem dropFirst_eq (n : Nat) (chunk : Octets) (rest : List Octets) :
    dropFirst n chunk rest = [chunk.drop n].filter (· ≠ []) ++ rest := by
  unfold dropFirst
  split
  · rename_i h
    simp [h]
  · rename_i h
    simp [h]

/-- A read cuts the first chunk in two. -/
theorem inPieces_dropFirst (n : Nat) (chunk : Octets) (rest : List Octets) :
    InPieces (chunk :: rest) ([chunk.take n].filter (· ≠ []) ++ dropFirst n chunk rest) := by
  have h := InPieces.cons ([chunk.take n, chunk.drop n].filter (· ≠ [])) (.refl rest)
  have hflatten : ([chunk.take n, chunk.drop n].filter (· ≠ [])).flatten = chunk := by
    rw [List.flatten_filter_ne_nil]
    simp
  rw [hflatten] at h
  rwa [dropFirst_eq, ← List.append_assoc, ← List.filter_append]

variable {p q : Pipe} {n : Nat} {limit : Option Nat} {log : List Entry} {e : Entry}

/-- All that a read can come to. -/
inductive Yields (n : Nat) (p : Pipe) : Progress (Except IoError Octets) → Pipe → Prop
  | stalled (hqueue : p.queue = []) (hopen : (p.ended || p.closed) = false) :
    Yields n p .stalled p
  | ended (hqueue : p.queue = []) (hended : (p.ended || p.closed) = true) :
    Yields n p (.ready (.ok [])) { p with reads := p.reads + 1 }
  | octets {chunk : Octets} {rest : List Octets} (hqueue : p.queue = chunk :: rest)
    (hne : ∀ c ∈ dropFirst n chunk rest, c ≠ []) :
    Yields n p (.ready (.ok (chunk.take n)))
      { p with queue := dropFirst n chunk rest, reads := p.reads + 1, chunk_ne_nil := hne }

theorem yields_of_read {result : Progress (Except IoError Octets)}
    (h : p.read n = (result, q)) : Yields n p result q := by
  unfold read at h
  split at h
  · rename_i hqueue
    split at h
    · rename_i hended
      obtain ⟨rfl, rfl⟩ := Prod.mk.inj h
      exact .ended hqueue hended
    · rename_i hopen
      obtain ⟨rfl, rfl⟩ := Prod.mk.inj h
      exact .stalled hqueue (by simpa using hopen)
  · rename_i chunk rest hqueue
    obtain ⟨rfl, rfl⟩ := Prod.mk.inj h
    exact .octets hqueue _

/-- What one entry makes of a pipe. -/
structure Advances (p : Pipe) (e : Entry) (q : Pipe) : Prop where
  inPieces : InPieces (p.queue ++ e.1.chunks) (e.2.pieces ++ q.queue)
  ended_eq : q.ended = (p.ended || e.1.isFinish)
  closed_eq : q.closed = (p.closed || e.1.isShutdown)
  maxWrite_eq : q.maxWrite = p.maxWrite
  written_eq : q.written = p.written ++ e.accepted

/-- At most the queue has changed, and the count of reads. -/
structure OnlyQueue (p q : Pipe) : Prop where
  ended_eq : q.ended = p.ended
  closed_eq : q.closed = p.closed
  maxWrite_eq : q.maxWrite = p.maxWrite
  written_eq : q.written = p.written

theorem OnlyQueue.advances (h : OnlyQueue p q) (hfinish : e.1.isFinish = false)
    (hshutdown : e.1.isShutdown = false) (haccepted : e.accepted = [])
    (hpieces : InPieces (p.queue ++ e.1.chunks) (e.2.pieces ++ q.queue)) : Advances p e q := by
  constructor
  · exact hpieces
  · rw [h.ended_eq, hfinish, Bool.or_false]
  · rw [h.closed_eq, hshutdown, Bool.or_false]
  · exact h.maxWrite_eq
  · rw [h.written_eq, haccepted, List.append_nil]

theorem advances_push (chunk : Octets) (p : Pipe) :
    Advances p (.push chunk, .done (.ok ())) (p.push chunk) := by
  have honly : OnlyQueue p (p.push chunk) := by
    unfold push
    split <;> exact ⟨rfl, rfl, rfl, rfl⟩
  refine honly.advances rfl rfl rfl ?_
  unfold push
  split
  · -- an empty chunk comes in no pieces at all
    rename_i hchunk
    have hpieces := InPieces.append (.refl p.queue) (.cons [] .nil)
    rw [List.append_nil, List.append_nil] at hpieces
    rw [hchunk]
    exact hpieces
  · exact .refl _

theorem advances_read {result : Progress (Except IoError Octets)} (h : p.read n = (result, q))
    (i : Nat) : Advances p (.on i (.read n), .read result) q := by
  cases yields_of_read h with
  | stalled hqueue hopen =>
    exact OnlyQueue.advances ⟨rfl, rfl, rfl, rfl⟩ rfl rfl rfl (.of_eq (List.append_nil _))
  | ended hqueue hended =>
    exact OnlyQueue.advances ⟨rfl, rfl, rfl, rfl⟩ rfl rfl rfl (.of_eq (List.append_nil _))
  | octets hqueue hne =>
    refine OnlyQueue.advances ⟨rfl, rfl, rfl, rfl⟩ rfl rfl rfl ?_
    rw [hqueue]
    exact List.append_nil _ ▸ inPieces_dropFirst n _ _

theorem write_fst (b : Octets) (p : Pipe) :
    (p.write b).1 = if p.closed then .error .brokenPipe else .ok (p.acceptance b.length) := by
  unfold write
  split <;> rfl

theorem advances_write (i : Nat) (b : Octets) (p : Pipe) :
    Advances p (.on i (.write b), .write (.ready (p.write b).1)) (p.write b).2 := by
  have hpieces : InPieces (p.queue ++ []) p.queue := .of_eq (List.append_nil _)
  unfold write
  split
  · exact OnlyQueue.advances ⟨rfl, rfl, rfl, rfl⟩ rfl rfl rfl hpieces
  · refine ⟨hpieces, (Bool.or_false _).symm, (Bool.or_false _).symm, rfl, ?_⟩
    simp [written, Entry.accepted]

theorem advances_perform (call : Call) (p : Pipe) :
    Advances p (call, (p.perform call).1) (p.perform call).2 := by
  have hpieces : InPieces (p.queue ++ []) p.queue := .of_eq (List.append_nil _)
  cases call with
  | push chunk => exact advances_push chunk p
  | finish =>
    exact ⟨hpieces, (Bool.or_true _).symm, (Bool.or_false _).symm, rfl, (List.append_nil _).symm⟩
  | on i op =>
    cases op with
    | read n => exact advances_read rfl i
    | write b => exact advances_write i b p
    | shutdown =>
      exact ⟨hpieces, (Bool.or_false _).symm, (Bool.or_true _).symm, rfl,
        (List.append_nil _).symm⟩
    | flush => exact OnlyQueue.advances ⟨rfl, rfl, rfl, rfl⟩ rfl rfl rfl hpieces
    | release => exact OnlyQueue.advances ⟨rfl, rfl, rfl, rfl⟩ rfl rfl rfl hpieces

/-- What the calls so far have left behind. -/
structure Standing (limit : Option Nat) (log : List Entry) (p : Pipe) : Prop where
  inPieces : InPieces (pushed log) (pieces log ++ p.queue)
  ended_eq : p.ended = wasFinished log
  closed_eq : p.closed = wasShutDown log
  maxWrite_eq : p.maxWrite = limit.map (max 1)
  written_eq : p.written = log.flatMap Entry.accepted
  replies : ∀ before call reply, before ++ [(call, reply)] <+: log →
    Replies limit before call reply

theorem standing_new (limit : Option Nat) : Standing limit [] (new limit) := by
  refine ⟨.nil, rfl, rfl, rfl, rfl, ?_⟩
  intro before call reply hprefix
  simp at hprefix

theorem flatten_pieces (log : List Entry) : (pieces log).flatten = received log := by
  have hentry (e : Entry) : e.2.pieces.flatten = e.2.octets := by
    rw [Reply.pieces, List.flatten_filter_ne_nil, List.flatten_singleton]
  induction log with
  | nil => rfl
  | cons e log ih =>
    rw [pieces, List.flatMap_cons, List.flatten_append, hentry, received, List.flatMap_cons]
    exact congrArg (e.2.octets ++ ·) ih

/-- No chunk of the queue is empty. -/
theorem flatten_queue_eq_nil_iff (p : Pipe) : p.queue.flatten = [] ↔ p.queue = [] := by
  constructor
  · intro hflatten
    have hall := List.flatten_eq_nil_iff.1 hflatten
    exact List.eq_nil_iff_forall_not_mem.2 fun c hc => p.chunk_ne_nil c hc (hall c hc)
  · intro hnil
    rw [hnil, List.flatten_nil]

namespace Standing

theorem received_append_queue (h : Standing limit log p) :
    received log ++ p.queue.flatten = (pushed log).flatten := by
  rw [← flatten_pieces, ← List.flatten_append, h.inPieces.flatten_eq]

theorem isDrained_iff (h : Standing limit log p) : IsDrained log ↔ p.queue = [] := by
  rw [IsDrained, ← h.received_append_queue, List.self_eq_append_right,
    flatten_queue_eq_nil_iff]

theorem readReply (h : Standing limit log p) (n : Nat) : ReadReply log n (.read (p.read n).1) := by
  have hdrained := h.isDrained_iff
  have hsignalled : wasSignalled log = (p.ended || p.closed) := by
    rw [wasSignalled, h.ended_eq, h.closed_eq]
  generalize hread : p.read n = t
  obtain ⟨result, q⟩ := t
  cases yields_of_read hread with
  | stalled hqueue hopen =>
    have hstalled : IsDrained log ∧ wasSignalled log = false :=
      ⟨hdrained.2 hqueue, hsignalled.trans hopen⟩
    constructor
    · exact .inl rfl
    · exact ⟨fun _ => hstalled, fun _ => rfl⟩
    · intro hn
      simp [hstalled.2]
  | ended hqueue hended =>
    have hover : IsDrained log ∧ wasSignalled log = true :=
      ⟨hdrained.2 hqueue, hsignalled.trans hended⟩
    constructor
    · exact .inr ⟨[], rfl, Nat.zero_le n⟩
    · simp [hover.2]
    · exact fun hn => ⟨fun _ => hover, fun _ => rfl⟩
  | @octets chunk rest hqueue hne =>
    have hqueued : ¬ IsDrained log := by
      rw [hdrained, hqueue]
      exact List.cons_ne_nil _ _
    constructor
    · exact .inr ⟨_, rfl, List.length_take_le _ _⟩
    · simp [hqueued]
    · intro hn
      have hchunk : chunk ≠ [] := p.chunk_ne_nil chunk (hqueue ▸ List.mem_cons_self)
      have htake : chunk.take n ≠ [] := by
        rw [Ne, List.take_eq_nil_iff]
        exact not_or.2 ⟨Nat.ne_of_gt hn, hchunk⟩
      simp [hqueued, htake]

theorem acceptance_eq (h : Standing limit log p) (n : Nat) : p.acceptance n = room limit n := by
  rw [acceptance, h.maxWrite_eq, room]
  cases limit with
  | none => rfl
  | some most => rfl

theorem replies_perform (h : Standing limit log p) (call : Call) :
    Replies limit log call (p.perform call).1 := by
  cases call with
  | push chunk => exact rfl
  | finish => exact rfl
  | on i op =>
    cases op with
    | read n => exact h.readReply n
    | write b =>
      have hwrite : (p.write b).1 =
          if wasShutDown log then .error .brokenPipe else .ok (room limit b.length) := by
        rw [write_fst, h.closed_eq, h.acceptance_eq]
      exact congrArg (fun result => Reply.write (.ready result)) hwrite
    | flush => exact rfl
    | shutdown => exact rfl
    | release => exact rfl

theorem advance {call : Call} {reply : Reply} (h : Standing limit log p)
    (he : Advances p (call, reply) q) (hreply : Replies limit log call reply) :
    Standing limit (log ++ [(call, reply)]) q := by
  constructor
  · -- what was queued before comes in pieces now, and so does what was pushed
    have hqueue := InPieces.append (.refl (pieces log)) he.inPieces
    rw [← List.append_assoc] at hqueue
    simpa [pushed, pieces] using (h.inPieces.append (.refl call.chunks)).trans hqueue
  · simp [he.ended_eq, h.ended_eq, wasFinished]
  · simp [he.closed_eq, h.closed_eq, wasShutDown]
  · rw [he.maxWrite_eq, h.maxWrite_eq]
  · rw [he.written_eq, h.written_eq, List.flatMap_append, List.flatMap_singleton]
  · intro before call' reply' hprefix
    rcases List.prefix_concat_iff.1 hprefix with heq | hprefix
    · obtain ⟨rfl, hentry⟩ := List.append_singleton_inj.1 heq
      obtain ⟨rfl, rfl⟩ := Prod.mk.inj hentry
      exact hreply
    · exact h.replies before call' reply' hprefix

theorem perform (h : Standing limit log p) (call : Call) :
    Standing limit (log ++ [(call, (p.perform call).1)]) (p.perform call).2 :=
  h.advance (advances_perform call p) (h.replies_perform call)

theorem run (h : Standing limit log p) (calls : List Call) :
    Standing limit (log ++ (p.run calls).1) (p.run calls).2 := by
  induction calls generalizing log p with
  | nil => exact (List.append_nil log).symm ▸ h
  | cons call calls ih =>
    have hrun := ih (h.perform call)
    rwa [List.append_assoc] at hrun

end Standing

theorem map_fst_run (calls : List Call) (p : Pipe) : (p.run calls).1.map Prod.fst = calls := by
  induction calls generalizing p with
  | nil => rfl
  | cons call calls ih => exact congrArg (call :: ·) (ih _)

theorem accepted_perform_of_closed (hclosed : p.closed = true) (call : Call) :
    Entry.accepted (call, (p.perform call).1) = [] := by
  cases call with
  | push chunk => rfl
  | finish => rfl
  | on i op =>
    cases op with
    | write b =>
      have hwrite : (p.write b).1 = .error .brokenPipe := by rw [write_fst, if_pos hclosed]
      show Entry.accepted (.on i (.write b), .write (.ready (p.write b).1)) = []
      rw [hwrite]
      rfl
    | _ => rfl

theorem written_run_of_closed (hclosed : p.closed = true) (calls : List Call) :
    (p.run calls).2.written = p.written := by
  induction calls generalizing p with
  | nil => rfl
  | cons call calls ih =>
    have he := advances_perform call p
    have hclosed' : (p.perform call).2.closed = true := by rw [he.closed_eq, hclosed, Bool.true_or]
    have hwritten := he.written_eq
    rw [accepted_perform_of_closed hclosed, List.append_nil] at hwritten
    exact (ih hclosed').trans hwritten

/-- A pipe brings the octets that are pushed to those who read, whoever makes the calls and in
whatever order. -/
theorem run_faithful (limit : Option Nat) (calls : List Call) :
    let t := (new limit).run calls
    t.1.map Prod.fst = calls ∧ Faithful limit t.1 t.2 := by
  intro t
  have h : Standing limit t.1 t.2 := (standing_new limit).run calls
  refine ⟨map_fst_run calls _, ?_⟩
  constructor
  · exact h.received_append_queue
  · exact h.inPieces
  · exact h.replies
  · exact h.written_eq
  · exact fun hshut later => written_run_of_closed (h.closed_eq.trans hshut) later

end HttpWire.Pipe

import HttpWire.Exchange
import HttpWire.Proofs.Connection.Input
import HttpWire.Proofs.Head.Extent
import HttpWire.Proofs.Stepwise.Runs

/-! How a response arrives: an invariant of the exchange, and what it says when there is a body. -/
namespace HttpWire

/-- Writing a request takes nothing from the input. -/
theorem RequestWriter.advances_step {w w' : RequestWriter} {s s' : Script}
    {p : Progress (Except Error (Step Nat))} (h : w.step s = (p, w', s')) : s.Advances [] s' := by
  unfold step at h
  split at h
  · obtain ⟨-, -, rfl⟩ := by simpa using h
    exact .refl s
  · split at h <;> rename_i hwrite <;> obtain ⟨-, -, rfl⟩ := by simpa using h
    all_goals exact Script.advances_write hwrite
  · have hflush := Script.advances_flush s
    split at h <;> rename_i hresult <;> obtain ⟨-, -, rfl⟩ := by simpa using h
    all_goals
      rw [show s.flush = _ from hresult] at hflush
      exact hflush

/-- No head is complete in what was received. -/
def Head.Unfinished (maxLine : Nat) (received : Octets) : Prop :=
  ((Decoder.new maxLine).rescan received).1 = .ok none

/-- The head of a response, and the octets received after it. -/
def Head.Received (maxLine : Nat) (received : Octets) (head : Head) (leftover : Octets) : Prop :=
  ∃ d, (Decoder.new maxLine).rescan received = (.ok (some head), d, leftover)

namespace HeadReader

/-- The decoder and the buffer are as far as one decoder that was given everything received. -/
structure Follows (maxLine : Nat) (r : HeadReader) (s : Script) : Prop where
  isOpen : r.source.isOpen = true
  packetSize_pos : 0 < r.source.packetSize
  searched : r.decoder.Searched r.buffer.toOctets
  rescan_eq : (Head.Decoder.new maxLine).rescan s.received =
    (.ok none, r.decoder.rewind, r.buffer.toOctets)

variable {maxLine : Nat} {r r' : HeadReader} {s s' : Script}

theorem follows_new (packetSize maxLine : Nat) (hs : s.received = []) :
    (new (.new packetSize) maxLine).Follows maxLine s := by
  constructor
  · rfl
  · show 0 < max 1 packetSize
    omega
  · exact Head.Decoder.searched_new maxLine
  · rw [hs]
    exact Head.Decoder.idle_new maxLine

theorem Follows.unfinished (h : r.Follows maxLine s) : Head.Unfinished maxLine s.received := by
  rw [Head.Unfinished, h.rescan_eq]

theorem Follows.feed {packet : Octets} (h : r.Follows maxLine s) (ha : s.Advances packet s') :
    (Head.Decoder.new maxLine).rescan s'.received = (r.decoder.feed r.buffer packet).view := by
  rw [ha.received_eq, Head.Decoder.rescan_append h.rescan_eq,
    (Head.Decoder.view_feed h.searched packet).1]
  rfl

/-- What one step can do, besides a stall. -/
inductive Moves (r : HeadReader) (s : Script) :
    Progress (Except Error (Step (Head × Octets))) → HeadReader → Script → Prop
  | digested {packet : Octets} {result : Except Error (Step (Head × Octets))} {r' : HeadReader}
    {s' : Script} (advance : s.Advances packet s')
    (digest : HeadReader.digest { r with waiting := false } packet = (result, r')) :
    r.Moves s (.ready result) r' s'
  | failed {packet : Octets} {e : Error} {s' : Script} (advance : s.Advances packet s') :
    r.Moves s (.ready (.error e)) { r with waiting := false } s'
  | putOff {s' : Script} (advance : s.Advances [] s') :
    r.Moves s .again { r with waiting := true } s'

theorem moves_step {p : Progress (Except Error (Step (Head × Octets)))}
    (h : r.step s = (p, r', s')) : r.Moves s p r' s' := by
  unfold step at h
  split at h
  all_goals
    rename_i hpull
    have ha := PacketReader.advances_pull hpull
  · obtain ⟨rfl, rfl, rfl⟩ := by simpa using h
    exact .failed ha
  · simp only [Prod.mk.injEq] at h
    obtain ⟨rfl, rfl, rfl⟩ := h
    exact .digested ha rfl
  · obtain ⟨rfl, rfl, rfl⟩ := by simpa using h
    exact .failed ha
  · obtain ⟨rfl, rfl, rfl⟩ := by simpa using h
    exact .putOff ha
  · exact absurd hpull PacketReader.pull_ne_stalled

theorem Moves.exists_advances {p : Progress (Except Error (Step (Head × Octets)))}
    (h : r.Moves s p r' s') : ∃ packet, s.Advances packet s' := by
  cases h with
  | digested advance => exact ⟨_, advance⟩
  | failed advance => exact ⟨_, advance⟩
  | putOff advance => exact ⟨_, advance⟩

theorem Follows.digest_more {packet : Octets} (h : r.Follows maxLine s)
    (ha : s.Advances packet s') (hr : r.digest packet = (.ok .more, r')) :
    r'.Follows maxLine s' := by
  have hfeed := h.feed ha
  have hsearched := (Head.Decoder.view_feed h.searched packet).2
  unfold digest at hr
  dsimp only at hr
  split at hr
  · simp at hr
  · rename_i hresult
    obtain rfl := (Prod.mk.inj hr).2
    rw [Head.Decoder.Outcome.view, hresult] at hfeed
    exact ⟨h.isOpen, h.packetSize_pos, hsearched, hfeed⟩
  · simp at hr

theorem Follows.digest_done {packet leftover : Octets} {head : Head} (h : r.Follows maxLine s)
    (ha : s.Advances packet s') (hr : r.digest packet = (.ok (.done (head, leftover)), r')) :
    Head.Received maxLine s'.received head leftover ∧ r'.source = r.source := by
  have hfeed := h.feed ha
  unfold digest at hr
  dsimp only at hr
  split at hr
  · simp at hr
  · simp at hr
  · rename_i hresult
    obtain ⟨⟨rfl, rfl⟩, rfl⟩ := by simpa using hr
    rw [Head.Decoder.Outcome.view, hresult] at hfeed
    exact ⟨⟨_, hfeed⟩, rfl⟩

theorem Follows.of_waiting (h : r.Follows maxLine s) (waiting : Bool) :
    Follows maxLine { r with waiting } s :=
  ⟨h.isOpen, h.packetSize_pos, h.searched, h.rescan_eq⟩

theorem Follows.of_more (h : r.Follows maxLine s) (hm : r.Moves s (.ready (.ok .more)) r' s') :
    r'.Follows maxLine s' := by
  cases hm with
  | digested advance digest => exact (h.of_waiting false).digest_more advance digest

theorem Follows.of_again (h : r.Follows maxLine s) (hm : r.Moves s .again r' s') :
    r'.Follows maxLine s' := by
  cases hm with
  | putOff advance =>
    have hreceived := advance.received_eq
    rw [List.append_nil] at hreceived
    refine ⟨h.isOpen, h.packetSize_pos, h.searched, ?_⟩
    rw [hreceived]
    exact h.rescan_eq

theorem Follows.of_done {head : Head} {leftover : Octets} (h : r.Follows maxLine s)
    (hm : r.Moves s (.ready (.ok (.done (head, leftover)))) r' s') :
    Head.Received maxLine s'.received head leftover ∧ r'.source = r.source := by
  cases hm with
  | digested advance digest => exact (h.of_waiting false).digest_done advance digest

end HeadReader

namespace Exchange

/-- What holds of each stage, once the input was received that far. -/
def Stage.Sound (maxLine : Nat) (s : Script) : Stage → Prop
  | .writing _ => s.received = []
  | .abandoning _ _ => True
  | .reading _ reader => reader.Follows maxLine s
  | .ending _ _ result => ∀ response, result = .ok response → response.body = none

/-- The input is there whole, and each read so far was needed for the head. -/
structure Sound (whole : Octets) (maxLine : Nat) (x : Exchange) (s : Script) : Prop where
  maxLine_eq : x.limits.maxLine = maxLine
  whole_eq : s.received ++ s.unread = whole
  smooth : s.IsSmooth
  reads : s.ReadsOnlyWhile (Head.Unfinished maxLine)
  stage : x.stage.Sound maxLine s

variable {whole : Octets} {maxLine : Nat} {x x' : Exchange} {s s' : Script}

theorem Sound.advance {packet : Octets} (h : Sound whole maxLine x s) (ha : s.Advances packet s')
    (hunfinished : Head.Unfinished maxLine s.received) (hlimits : x'.limits = x.limits)
    (hstage : x'.stage.Sound maxLine s') : Sound whole maxLine x' s' := by
  constructor
  · rw [hlimits, h.maxLine_eq]
  · rw [ha.received_append_unread, h.whole_eq]
  · exact ha.smooth h.smooth
  · exact ha.readsOnlyWhile _ hunfinished h.reads
  · exact hstage

theorem unfinished_nil (maxLine : Nat) : Head.Unfinished maxLine [] := by
  rw [Head.Unfinished, Head.Decoder.rescan_nil]

theorem conclude_more {encoding : Request.Encoding} {source : PacketReader}
    {result : Except Error Response} (h : x.conclude encoding source result = (.ok .more, x')) :
    x'.limits = x.limits ∧ x'.stage.Sound maxLine s := by
  obtain ⟨response, -, -, hconclude⟩ | ⟨hbody, hconclude⟩ :=
    x.conclude_cases encoding source result
  · rw [hconclude] at h
    simp at h
  · obtain rfl := (Prod.mk.inj (hconclude.symm.trans h)).2
    exact ⟨rfl, hbody⟩

theorem conclude_done {encoding : Request.Encoding} {source : PacketReader}
    {result : Except Error Response} {response : Response}
    (h : x.conclude encoding source result = (.ok (.done response), x')) :
    result = .ok response := by
  obtain ⟨response', hresult, -, hconclude⟩ | ⟨-, hconclude⟩ :=
    x.conclude_cases encoding source result
  · rw [hconclude] at h
    simp only [Prod.mk.injEq, Except.ok.injEq, Step.done.injEq] at h
    rw [hresult, h.1]
  · rw [hconclude] at h
    simp at h

theorem Sound.conclude {packet : Octets} {encoding : Request.Encoding} {source : PacketReader}
    {result : Except Error Response} (h : Sound whole maxLine x s) (ha : s.Advances packet s')
    (hunfinished : Head.Unfinished maxLine s.received)
    (hmore : x.conclude encoding source result = (.ok .more, x')) : Sound whole maxLine x' s' := by
  obtain ⟨hlimits, hstage⟩ := conclude_more hmore
  exact h.advance ha hunfinished hlimits hstage

/-- The invariant is kept by every step that is not the last. -/
theorem Sound.step {p : Progress (Except Error (Step Response))} (h : Sound whole maxLine x s)
    (hp : x.step s = (p, x', s')) (hgo : p = .ready (.ok .more) ∨ p = .again) :
    Sound whole maxLine x' s' := by
  have hstage := h.stage
  unfold Exchange.step at hp
  split at hp
  · rename_i writer hx
    have hnone : s.received = [] := by simpa only [hx, Stage.Sound] using hstage
    -- nothing is read while the request is written
    have hunfinished : Head.Unfinished maxLine s.received := by
      rw [hnone]
      exact unfinished_nil maxLine
    split at hp
    all_goals
      rename_i hw
      obtain ⟨rfl, rfl, rfl⟩ := by simpa using hp
      have ha := RequestWriter.advances_step hw
      have hnone' := ha.received_eq
      rw [hnone, List.nil_append] at hnone'
    · exact h.advance ha hunfinished rfl hnone'
    · refine h.advance ha hunfinished rfl ?_
      rw [h.maxLine_eq]
      exact HeadReader.follows_new _ maxLine hnone'
    · exact h.advance ha hunfinished rfl trivial
    · exact h.advance ha hunfinished rfl hnone'
    · simp at hgo
  · obtain ⟨rfl, rfl, rfl⟩ := by simpa using hp
    simp at hgo
  · rename_i encoding reader hx
    have hfollows : reader.Follows maxLine s := by simpa only [hx, Stage.Sound] using hstage
    split at hp
    all_goals
      rename_i hr
      have hmoves := HeadReader.moves_step hr
      obtain ⟨packet, ha⟩ := hmoves.exists_advances
    · obtain ⟨rfl, rfl, rfl⟩ := by simpa using hp
      exact h.advance ha hfollows.unfinished rfl (hfollows.of_more hmoves)
    · simp only [Prod.mk.injEq] at hp
      obtain ⟨rfl, rfl, rfl⟩ := hp
      have hmore := Progress.ready.inj (hgo.resolve_right (by simp))
      exact h.conclude ha hfollows.unfinished (Prod.ext hmore rfl)
    · simp only [Prod.mk.injEq] at hp
      obtain ⟨rfl, rfl, rfl⟩ := hp
      have hmore := Progress.ready.inj (hgo.resolve_right (by simp))
      exact h.conclude ha hfollows.unfinished (Prod.ext hmore rfl)
    · obtain ⟨rfl, rfl, rfl⟩ := by simpa using hp
      exact h.advance ha hfollows.unfinished rfl (hfollows.of_again hmoves)
    · obtain ⟨rfl, rfl, rfl⟩ := by simpa using hp
      simp at hgo
  · rename_i encoding source result hx
    obtain ⟨rfl, rfl, rfl⟩ := by simpa using hp
    cases result <;> simp [Except.map] at hgo

/-- A response with a body, as it stands when the exchange is over: nothing is lost, no read was
made after the head, and the body goes on where the head ended. -/
structure Arrives (whole : Octets) (maxLine : Nat) (s : Script) (response : Response)
    (body : Response.Body) : Prop where
  whole_eq : s.received ++ s.unread = whole
  smooth : s.IsSmooth
  reads : s.ReadsOnlyWhile (Head.Unfinished maxLine)
  received : Head.Received maxLine s.received
    ⟨response.status, response.reason, response.headers⟩ body.reader.leftover
  reader_eq : ∃ source : PacketReader, source.isOpen = true ∧ 0 < source.packetSize ∧
    body.reader = .new source (Response.declaredLength response.headers) body.reader.leftover

theorem arrives_of_respond {method : Method} {source : PacketReader} {head : Head}
    {leftover : Octets} {response : Response} {body : Response.Body}
    (h : respond method source head leftover = .ok response) (hbody : response.body = some body) :
    (⟨response.status, response.reason, response.headers⟩ : Head) = head ∧
      body.reader = .new source (Response.declaredLength response.headers) leftover := by
  unfold respond at h
  split at h
  · split at h
    · simp at h
    · obtain rfl := Except.ok.inj h
      obtain rfl := Option.some.inj hbody
      exact ⟨rfl, rfl⟩
  · obtain rfl := Except.ok.inj h
    simp at hbody

theorem Sound.arrives {response : Response} {body : Response.Body} (h : Sound whole maxLine x s)
    (hp : x.step s = (.ready (.ok (.done response)), x', s')) (hbody : response.body = some body) :
    Arrives whole maxLine s' response body := by
  have hstage := h.stage
  unfold Exchange.step at hp
  split at hp
  · split at hp <;> simp at hp
  · simp at hp
  · rename_i encoding reader hx
    have hfollows : reader.Follows maxLine s := by simpa only [hx, Stage.Sound] using hstage
    split at hp
    · simp at hp
    · rename_i head leftover reader' u hr
      simp only [Prod.mk.injEq, Progress.ready.injEq] at hp
      obtain ⟨hresult, -, rfl⟩ := hp
      have hmoves := HeadReader.moves_step hr
      obtain ⟨packet, ha⟩ := hmoves.exists_advances
      obtain ⟨hreceived, hsource⟩ := hfollows.of_done hmoves
      obtain ⟨hhead, hreader⟩ := arrives_of_respond (conclude_done (Prod.ext hresult rfl)) hbody
      have hleftover : body.reader.leftover = leftover := by
        rw [hreader]
        rfl
      constructor
      · rw [ha.received_append_unread, h.whole_eq]
      · exact ha.smooth h.smooth
      · exact ha.readsOnlyWhile _ hfollows.unfinished h.reads
      · rw [hhead, hleftover]
        exact hreceived
      · refine ⟨reader'.source, ?_, ?_, hleftover ▸ hreader⟩
        · rw [hsource]
          exact hfollows.isOpen
        · rw [hsource]
          exact hfollows.packetSize_pos
    · rename_i e reader' u hr
      simp only [Prod.mk.injEq, Progress.ready.injEq] at hp
      have hresult := conclude_done (Prod.ext hp.1 rfl)
      simp at hresult
    · simp at hp
    · simp at hp
  · rename_i encoding source result hx
    have hnone : ∀ response, result = .ok response → response.body = none := by
      simpa only [hx, Stage.Sound] using hstage
    simp only [Prod.mk.injEq, Progress.ready.injEq] at hp
    cases result with
    | error e => simp [Except.map] at hp
    | ok r =>
      obtain ⟨rfl, -⟩ := by simpa [Except.map] using hp
      simp [hnone r rfl] at hbody

/-- When an exchange ends with a body, the response has arrived. -/
theorem arrives_of_run {r : Request} {limits : Limits} {reads : List Script.ReadItem}
    {writes : List Script.WriteItem} {flushError shutdownError : Option IoError}
    {response : Response} {body : Response.Body} (hreads : ∀ item ∈ reads, item.isSmooth = true)
    (hrun : (new r limits).run (.new reads writes flushError shutdownError) =
      (some (.ok response), x', s')) (hbody : response.body = some body) :
    Arrives (reads.flatMap Script.ReadItem.octets) limits.maxLine s' response body := by
  have hnew : Sound (reads.flatMap Script.ReadItem.octets) limits.maxLine (new r limits)
      (.new reads writes flushError shutdownError) :=
    ⟨rfl, rfl, hreads, Script.readsOnlyWhile_new _ _ _ _ _, rfl⟩
  obtain ⟨⟨x, s⟩, hsound, hlast⟩ := Stepwise.exists_last
    (P := fun t : Exchange × Script =>
      Sound (reads.flatMap Script.ReadItem.octets) limits.maxLine t.1 t.2)
    (fun t t' ht hstep => Sound.step ht hstep (.inl rfl))
    (fun t t' ht hstep => Sound.step ht hstep (.inr rfl)) hnew hrun
  obtain ⟨output, hr, hstep⟩ | ⟨e, hr, -⟩ | ⟨hr, -⟩ := hlast
  · obtain rfl : response = output := by simpa using hr
    exact hsound.arrives hstep hbody
  · simp at hr
  · simp at hr

end Exchange
end HttpWire

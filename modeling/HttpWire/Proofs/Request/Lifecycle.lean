import HttpWire.Request.Encoding

/-! What becomes of the body of a request. It is opened at most once, when the head is out, and
closed once if it was opened. -/
namespace HttpWire.Request

/-- Opened once, and pulled since. -/
def InUse (events : List BodyEvent) : Prop :=
  ∃ results : List (Except Error Octets), events = .opened :: results.map .pulled

/-- Never opened, or opened once and closed once, with nothing after that. -/
inductive Settled : List BodyEvent → Prop
  | unused : Settled []
  | closed (results : List (Except Error Octets)) (verdict : Except Error Unit) :
    Settled (.opened :: results.map .pulled ++ [.closed verdict])

theorem InUse.pulled {events : List BodyEvent} (h : InUse events) (result : Except Error Octets) :
    InUse (events ++ [.pulled result]) := by
  obtain ⟨results, rfl⟩ := h
  exact ⟨results ++ [result], by simp⟩

theorem InUse.settled {events : List BodyEvent} (h : InUse events) (verdict : Except Error Unit) :
    Settled (events ++ [.closed verdict]) := by
  obtain ⟨results, rfl⟩ := h
  exact .closed results verdict

namespace Encoding
variable {e : Encoding}

/-- What was done with the body, in order. -/
def history (e : Encoding) : List BodyEvent := e.record.reverse

/-- The body is open in its own phase alone. -/
def Tidy (e : Encoding) : Prop :=
  match e.phase with
  | .requestLine line _ => line ≠ [] ∧ e.history = []
  | .fields _ => e.history = []
  | .body _ => InUse e.history
  | .closed => Settled e.history

theorem tidy_encode (r : Request) : r.encode.Tidy := ⟨by simp [requestLine, Octets.crlf], rfl⟩

theorem tidy_endFields (h : e.history = []) : e.endFields.Tidy := by
  unfold endFields
  split
  · show Settled e.history
    rw [h]
    exact .unused
  · show InUse (BodyEvent.opened :: e.record).reverse
    rw [List.reverse_cons]
    rw [history] at h
    rw [h]
    exact ⟨[], rfl⟩

theorem settled_closeBody (h : InUse e.history) (stream : Body.Stream) :
    Settled (e.closeBody stream).history := by
  have hhistory : (e.closeBody stream).history = e.history ++ [.closed stream.close.1] :=
    List.reverse_cons
  rw [hhistory]
  exact h.settled _

theorem Tidy.settled (h : e.Tidy) (hphase : ∀ stream, e.phase ≠ .body stream) :
    Settled e.history := by
  unfold Tidy at h
  split at h
  · rw [h.2]
    exact .unused
  · rw [h]
    exact .unused
  · rename_i stream hbody
    exact absurd hbody (hphase stream)
  · exact h

/-- Only the end of the request is an empty packet, and the body is not open after it. -/
theorem Tidy.next (h : e.Tidy) :
    e.next.2.Tidy ∧ (e.next.1 = .ok [] → e.next.2.phase = .closed) := by
  unfold Encoding.next
  split
  · rename_i line fields hphase
    rw [Tidy, hphase] at h
    exact ⟨h.2, fun hend => absurd (Except.ok.inj hend) h.1⟩
  · rename_i field rest hphase
    rw [Tidy, hphase] at h
    exact ⟨h, fun hend => by simp [fieldLine, Octets.crlf] at hend⟩
  · rename_i hphase
    rw [Tidy, hphase] at h
    exact ⟨tidy_endFields h, fun hend => by simp [Octets.crlf] at hend⟩
  · rename_i stream hphase
    rw [Tidy, hphase] at h
    obtain ⟨result, stream'⟩ := stream.next
    have hpulled : InUse (history ⟨e.source, .body stream', .pulled result :: e.record⟩) := by
      rw [history, List.reverse_cons]
      exact h.pulled result
    dsimp only
    split
    · exact ⟨hpulled, fun hend => by simp at hend⟩
    · exact ⟨settled_closeBody hpulled _, fun _ => rfl⟩
    · exact ⟨settled_closeBody hpulled _, fun hend => by simp at hend⟩
  · rename_i hphase
    exact ⟨h, fun _ => hphase⟩

/-- To stop leaves the body closed, if it was opened. -/
theorem Tidy.close (h : e.Tidy) : Settled e.close.2.history := by
  unfold Encoding.close
  split
  · rename_i stream hphase
    rw [Tidy, hphase] at h
    exact settled_closeBody h stream
  · rename_i hphase
    exact h.settled hphase

/-- Only a pull of the body can fail. -/
theorem pulled_of_next_error {e' : Encoding} {cause : Error} (h : e.next = (.error cause, e')) :
    .pulled (.error cause) ∈ e'.history := by
  unfold Encoding.next at h
  split at h
  · simp at h
  · simp at h
  · simp at h
  · dsimp only at h
    split at h
    · simp at h
    · simp at h
    · rename_i hresult
      obtain ⟨hcause, rfl⟩ := Prod.mk.inj h
      obtain rfl := Except.error.inj hcause
      simp [history, closeBody, hresult]
  · simp at h

theorem history_subset_close (e : Encoding) : e.history ⊆ e.close.2.history := by
  unfold Encoding.close
  split
  · simp [history, closeBody]
  · exact List.Subset.refl _

end Encoding
end HttpWire.Request

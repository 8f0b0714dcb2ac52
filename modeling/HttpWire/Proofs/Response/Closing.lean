import HttpWire.Proofs.Body.Delivery
import HttpWire.Proofs.Connection.Events
import HttpWire.Proofs.Response.Reading

/-! What becomes of the connection when the body of a response is read or closed: it is shut down
once, except for a text in a character set that is not known. -/
namespace HttpWire

/-- From `s` to `t` the connection was read from, then shut down once, and then given up. -/
def Script.ShutsDown (s t : Script) : Prop :=
  ∃ (reads : List Script.Event) (result : Except IoError Unit),
    t.history = s.history ++ reads ++ [.shutdown result, .release] ∧ ∀ e ∈ reads, e.isRead = true

/-- To give a connection up is not to shut it down. -/
theorem Script.not_shutsDown_release (s : Script) : ¬ s.ShutsDown s.release := by
  rintro ⟨reads, result, hhistory, -⟩
  have hrelease : s.release.history = s.history ++ [.release] := history_of_record rfl
  have hlength := congrArg List.length (hrelease.symm.trans hhistory)
  simp only [List.length_append, List.length_cons, List.length_nil] at hlength
  omega

namespace BodyReader
open Script PacketStream
variable {b b' : BodyReader} {s s' : Script}

theorem extends_pull {p : Progress (Except Error Octets)} (hp : b.pull s = (p, b', s')) :
    s.Extends Event.isRead s' := by
  cases moves_of_pull hp with
  | settled => exact .refl _ s
  | complete => exact .refl _ s
  | leftover => exact .refl _ s
  | ended _ _ _ hpull => exact PacketReader.extends_pull hpull
  | packet _ _ _ _ hpull => exact PacketReader.extends_pull hpull
  | failed _ _ _ hpull => exact PacketReader.extends_pull hpull
  | putOff _ _ _ hpull => exact PacketReader.extends_pull hpull
  | stalled _ _ _ hpull => exact PacketReader.extends_pull hpull

theorem extends_next {t u : BodyReader × Script} {answer : Option (Except Error Octets)}
    (hn : PacketStream.next t = (answer, u)) : t.2.Extends Event.isRead u.2 := by
  fun_induction PacketStream.next t with
  | case1 t r u hpull =>
    obtain ⟨-, rfl⟩ := Prod.mk.inj hn
    exact extends_pull hpull
  | case2 t u hpull =>
    obtain ⟨-, rfl⟩ := Prod.mk.inj hn
    exact extends_pull hpull
  | case3 t u hpull hlt ih => exact (extends_pull hpull).trans (ih hn)

theorem extends_pulls (k : Nat) (t : BodyReader × Script) :
    t.2.Extends Event.isRead (pulls k t).2.2 := by
  induction k generalizing t with
  | zero => exact .refl _ t.2
  | succ k ih =>
    cases hn : PacketStream.next t with
    | mk answer u =>
      rw [pulls_succ hn]
      exact (extends_next hn).trans (ih u)

/-- A connection that is held is shut down and given up, and is not given up again. -/
theorem history_shutdown (hopen : b.source.isOpen = true) (s : Script) :
    ((b.shutdown s).2.1.release (b.shutdown s).2.2).history =
      s.history ++ [.shutdown (verdict s.shutdownError), .release] := by
  have hclosed : (b.shutdown s).2.1.source.isOpen = false := b.source.isOpen_shutdown s
  rw [release, PacketReader.release, hclosed]
  exact PacketReader.history_shutdown hopen s

end BodyReader

namespace Response.Body
open Script PacketStream BodyReader
variable {b : Body}

theorem shutsDown_close (hopen : b.reader.source.isOpen = true) (s : Script) :
    s.ShutsDown (b.close s).2 := by
  refine ⟨[], verdict s.shutdownError, ?_, List.forall_mem_nil _⟩
  rw [List.append_nil]
  exact history_shutdown hopen s

/-- However the reading ends, the connection is shut down after it. -/
theorem shutsDown_octets (hb : b.reader.Going) (s : Script) : s.ShutsDown (b.octets s).2 := by
  have hpulls := pulls_length_answers (b.reader, s)
  generalize (answers (b.reader, s)).1.length = k at hpulls
  have hcollect : collect (b.reader, s) =
      (some (outcomeOf (b.reader, s)), (pulls k (b.reader, s)).2) := by
    rw [collect_eq_joined, joined_answers (t := (b.reader, s)) hb, hpulls]
  have hopen : (pulls k (b.reader, s)).2.1.source.isOpen = true := by
    rw [(kept_pulls k (b.reader, s)).2]
    exact hb.isOpen
  obtain ⟨reads, hhistory, hreads⟩ := extends_pulls k (b.reader, s)
  refine ⟨reads, verdict (pulls k (b.reader, s)).2.2.shutdownError, ?_, hreads⟩
  rw [octets, hcollect, ← hhistory]
  exact history_shutdown hopen _

theorem octets_ne_none (hb : b.reader.Going) (s : Script) : (b.octets s).1 ≠ none := by
  rw [octets_eq_outcome hb]
  exact Option.some_ne_none _

/-- What is done to the connection of a body, whatever comes of reading it. A text is refused before
the connection is touched if its character set is not known, and then the connection is only given
up. -/
theorem fresh_shutsDown (mediaType : MediaType) (packetSize : Nat) (length : Option Nat)
    (leftover : Octets) (s : Script) :
    let b := fresh mediaType packetSize length leftover
    ((b.octets s).1 ≠ none ∧ s.ShutsDown (b.octets s).2) ∧ s.ShutsDown (b.close s).2 ∧
      (b.text s).1 ≠ none ∧
      (s.ShutsDown (b.text s).2 ↔ ∃ charset, mediaType.resolve = .ok charset) ∧
      ∀ label, mediaType.resolve = .error label →
        b.text s = (some (.error (.unsupportedCharset label)), s.release) := by
  intro b
  have hb : b.reader.Going := going_new packetSize length leftover
  have hoctets := shutsDown_octets hb s
  refine ⟨⟨octets_ne_none hb s, hoctets⟩, shutsDown_close hb.isOpen s, ?_⟩
  cases hresolve : mediaType.resolve with
  | error label =>
    have htext : b.text s = (some (.error (.unsupportedCharset label)), s.release) := by
      rw [text, show b.mediaType.resolve = _ from hresolve]
      rfl
    rw [htext]
    refine ⟨Option.some_ne_none _, ⟨fun h => absurd h s.not_shutsDown_release, ?_⟩, ?_⟩
    · rintro ⟨charset, h⟩
      simp at h
    · rintro label' h
      rw [Except.error.inj h]
  | ok charset =>
    have hsnd : (b.text s).2 = (b.octets s).2 := by
      rw [text, show b.mediaType.resolve = _ from hresolve]
    have hfst : (b.text s).1 ≠ none := by
      rw [text, show b.mediaType.resolve = _ from hresolve]
      exact fun h => octets_ne_none hb s (Option.map_eq_none_iff.1 h)
    rw [hsnd]
    refine ⟨hfst, ⟨fun _ => ⟨charset, rfl⟩, fun _ => hoctets⟩, ?_⟩
    rintro label h
    simp at h

/-- Nobody shuts down the connection of a text in a character set that is not known. -/
theorem text_of_unknown_charset :
    let b := fresh ⟨"text/plain", some "x-klingon"⟩ 4096 (some 2) []
    let s := Script.new [.data [104, 105]] [] none none
    (b.text s).1 = some (.error (.unsupportedCharset "x-klingon")) ∧
      (b.text s).2.count Event.isShutdown = 0 := by
  decide

end Response.Body
end HttpWire

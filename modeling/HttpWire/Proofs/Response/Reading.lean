import HttpWire.Proofs.Body.Outcome
import HttpWire.Response

/-! The ways to read the body of a response: all at once, item by item, and packet by packet. They
agree, and a body that was cut short is never taken for a whole one. -/
namespace HttpWire.Response.Body
open PacketStream BodyReader

/-- A body that nothing was read of. -/
def fresh (mediaType : MediaType) (packetSize : Nat) (length : Option Nat) (leftover : Octets) :
    Body :=
  ⟨mediaType, .new (.new packetSize) length leftover⟩

variable {b : Body}

theorem octets_fst {σ : Type} [Connection σ] (b : Body) (s : σ) :
    (b.octets s).1 = joined (answers (b.reader, s)).1 := by
  rw [octets, collect_eq_joined]
  split <;> exact (congrArg Prod.fst ‹_›).symm

theorem octets_eq_outcome (hb : b.reader.Going) (s : Script) :
    (b.octets s).1 = some (outcomeOf (b.reader, s)) := by
  rw [octets_fst, joined_answers (t := (b.reader, s)) hb]

/-- The items are the answers without the empty packet at the end. -/
theorem items_eq {s : Script} {packets : List Octets} {last : Option (Except Error Octets)}
    (hanswers : (answers (b.reader, s)).1 = packets.map packet ++ [last])
    (hne : ∀ p ∈ packets, p ≠ []) : (b.items s).1 =
      packets.map packet ++ if last = some (.ok []) then [] else [last] := by
  show List.filter _ (answers (b.reader, s)).1 = _
  rw [hanswers, List.filter_append, List.filter_eq_self.2]
  · obtain _ | _ | _ | _ := last <;> rfl
  · intro answer hanswer
    obtain ⟨p, hp, rfl⟩ := List.mem_map.1 hanswer
    obtain ⟨o, os, rfl⟩ := List.exists_cons_of_ne_nil (hne p hp)
    rfl

/-- What was packets alone is packets alone as items, and an error stays the last one. -/
theorem reading_cases (hb : b.reader.Going) (s : Script) :
    ∃ packets : List Octets, (∀ p ∈ packets, p ≠ []) ∧
      ((b.items s).1 = packets.map packet ∧ (b.octets s).1 = some (.ok packets.flatten) ∧
          (pulls (packets.length + 1) (b.reader, s)).1 = packets.map packet ++ [some (.ok [])] ∨
        ∃ e, (b.items s).1 = packets.map packet ++ [some (.error e)] ∧
          (b.octets s).1 = some (.error e) ∧
          (pulls (packets.length + 1) (b.reader, s)).1 =
            packets.map packet ++ [some (.error e)]) := by
  obtain ⟨packets, last, hanswers, hne, hlast⟩ := exists_answers_eq (b.reader, s)
  have hpulls : (pulls (packets.length + 1) (b.reader, s)).1 = packets.map packet ++ [last] := by
    have hall := pulls_length_answers (b.reader, s)
    rw [hanswers, List.length_append, List.length_map, List.length_singleton] at hall
    rw [hall, hanswers]
  have hoctets : (b.octets s).1 = prepend packets.flatten last := by
    rw [octets_fst, hanswers, joined_packets, joined_singleton hlast]
  have hitems := items_eq hanswers hne
  refine ⟨packets, hne, ?_⟩
  obtain _ | e | p := last
  · have hnone := octets_eq_outcome hb s
    simp [hoctets, prepend] at hnone
  · exact .inr ⟨e, hitems, hoctets, hpulls⟩
  · obtain rfl : p = [] := hlast
    refine .inl ⟨?_, ?_, hpulls⟩
    · rw [hitems]
      exact List.append_nil _
    · rw [hoctets, prepend_ok, List.append_nil]

/-- What the ways to read a body have to do with one another. -/
structure Agrees (length : Option Nat) (b : Body) (s : Script) : Prop where
  returns : (b.octets s).1 ≠ none
  ok_iff : ∀ content, (b.octets s).1 = some (.ok content) ↔
    ∃ packets : List Octets, (b.items s).1 = packets.map packet ∧ packets.flatten = content
  error_iff : ∀ e, (b.octets s).1 = some (.error e) ↔
    ∃ packets : List Octets, (b.items s).1 = packets.map packet ++ [some (.error e)]
  /-- Pulled to the first empty packet or error, the body gives the same packets. -/
  exists_pulls : ∃ packets : List Octets, (∀ p ∈ packets, p ≠ []) ∧
    ((pulls (packets.length + 1) (b.reader, s)).1 = packets.map packet ++ [some (.ok [])] ∧
        (b.items s).1 = packets.map packet ∨
      ∃ e, (pulls (packets.length + 1) (b.reader, s)).1 =
          packets.map packet ++ [some (.error e)] ∧
        (b.items s).1 = packets.map packet ++ [some (.error e)])
  length_eq : ∀ n content, length = some n → (b.octets s).1 = some (.ok content) →
    content.length = n

theorem agrees_of_going (hb : b.reader.Going) (hdelivered : b.reader.delivered = 0) (s : Script) :
    Agrees b.reader.length b s := by
  have hlength (n : Nat) (content : Octets) (hn : b.reader.length = some n)
      (h : (b.octets s).1 = some (.ok content)) : content.length = n := by
    rw [octets_eq_outcome hb, outcomeOf, hdelivered, hn] at h
    exact length_of_outcome (Option.some.inj h)
  obtain ⟨packets, hne, ⟨hitems, hoctets, hpulls⟩ | ⟨e, hitems, hoctets, hpulls⟩⟩ :=
    reading_cases hb s
  · refine ⟨by simp [hoctets], fun content => ?_, fun e => ?_,
      ⟨packets, hne, .inl ⟨hpulls, hitems⟩⟩, hlength⟩
    · rw [hoctets, hitems]
      constructor
      · intro h
        exact ⟨packets, rfl, by simpa using h⟩
      · rintro ⟨packets', h, rfl⟩
        rw [map_packet_injective h]
    · rw [hoctets, hitems]
      constructor
      · intro h
        simp at h
      · rintro ⟨packets', h⟩
        exact absurd h map_packet_ne
  · refine ⟨by simp [hoctets], fun content => ?_, fun e' => ?_,
      ⟨packets, hne, .inr ⟨e, hpulls, hitems⟩⟩, hlength⟩
    · rw [hoctets, hitems]
      constructor
      · intro h
        simp at h
      · rintro ⟨packets', h, -⟩
        exact absurd h.symm map_packet_ne
    · rw [hoctets, hitems]
      constructor
      · intro h
        obtain rfl : e = e' := by simpa using h
        exact ⟨packets, rfl⟩
      · rintro ⟨packets', h⟩
        obtain ⟨-, hlast⟩ := List.append_inj' h rfl
        simpa using hlast

/-- The course of the input decides what such a body comes to. -/
theorem octets_fresh (mediaType : MediaType) (packetSize : Nat) (length : Option Nat)
    (leftover : Octets) (s : Script) :
    ((fresh mediaType packetSize length leftover).octets s).1 =
      some (outcome length 0 (leftover ++ s.course.1) s.course.2) :=
  octets_eq_outcome (going_new packetSize length leftover) s

/-- The ways to read a body agree, whatever it is declared to be and whatever its connection does.
The octets that come before the input ends or breaks off decide what it comes to, and not the pieces
in which they come. -/
theorem fresh_agrees (mediaType : MediaType) (packetSize : Nat) (length : Option Nat)
    (leftover : Octets) (s : Script) :
    Agrees length (fresh mediaType packetSize length leftover) s ∧
      ∀ (packetSize' : Nat) (leftover' : Octets) (s' : Script),
        leftover' ++ s'.course.1 = leftover ++ s.course.1 → s'.course.2 = s.course.2 →
          ((fresh mediaType packetSize' length leftover').octets s').1 =
            ((fresh mediaType packetSize length leftover).octets s).1 := by
  refine ⟨agrees_of_going (b := fresh mediaType packetSize length leftover)
    (going_new packetSize length leftover) rfl s, ?_⟩
  intro packetSize' leftover' s' hcourse hfailure
  rw [octets_fresh, octets_fresh, hcourse, hfailure]

/-- A body is the same when its octets are cut into other pieces, and when more or fewer of them
have come with the head. -/
theorem octets_fresh_of_pieces (mediaType : MediaType) (packetSize packetSize' : Nat)
    (length : Option Nat) {leftover leftover' : Octets} {pieces pieces' : List Octets}
    (hne : ∀ piece ∈ pieces, piece ≠ []) (hne' : ∀ piece ∈ pieces', piece ≠ [])
    (hoctets : leftover' ++ pieces'.flatten = leftover ++ pieces.flatten)
    (rest : List Script.ReadItem) (writes : List Script.WriteItem)
    (flushError shutdownError : Option IoError) :
    ((fresh mediaType packetSize' length leftover').octets
        (Script.new (pieces'.map .data ++ rest) writes flushError shutdownError)).1 =
      ((fresh mediaType packetSize length leftover).octets
        (Script.new (pieces.map .data ++ rest) writes flushError shutdownError)).1 := by
  rw [octets_fresh, octets_fresh]
  simp only [Script.course, Script.new, Script.courseOf_pieces hne, Script.courseOf_pieces hne',
    List.nil_append, ← List.append_assoc, hoctets]

end HttpWire.Response.Body

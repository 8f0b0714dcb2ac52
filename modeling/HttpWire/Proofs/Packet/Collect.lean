import HttpWire.Proofs.Packet.Pulls

/-! A stream that is pulled to its end in one go comes to the packets that single pulls give,
joined, or to the error that they end with. -/
namespace HttpWire.PacketStream

/-- The answer that is a packet. -/
def packet (p : Octets) : Option (Except Error Octets) := some (.ok p)

theorem map_packet_injective : Function.Injective (List.map packet) :=
  List.map_injective_iff.2 fun _ _ h => Except.ok.inj (Option.some.inj h)

/-- A list of packets alone has no error in it. -/
theorem map_packet_ne {packets packets' : List Octets} {e : Error} :
    packets.map packet ≠ packets'.map packet ++ [some (.error e)] := by
  intro h
  have hmem : some (.error e) ∈ packets.map packet := by
    rw [h]
    exact List.mem_append_right _ List.mem_cons_self
  obtain ⟨p, -, hp⟩ := List.mem_map.1 hmem
  simp [packet] at hp

/-- Octets are put in front of a result that has any. -/
def prepend (b : Octets) (result : Option (Except Error Octets)) : Option (Except Error Octets) :=
  result.map (Except.map (b ++ ·))

/-- The packets joined, or the first answer that is none. -/
def joined : List (Option (Except Error Octets)) → Option (Except Error Octets)
  | [] => some (.ok [])
  | some (.ok p) :: answers => prepend p (joined answers)
  | answer :: _ => answer

@[simp]
theorem prepend_ok (b o : Octets) : prepend b (some (.ok o)) = some (.ok (b ++ o)) := rfl

@[simp]
theorem prepend_nil (result : Option (Except Error Octets)) : prepend [] result = result := by
  obtain _ | _ | _ := result <;> rfl

theorem prepend_prepend (a b : Octets) (result : Option (Except Error Octets)) :
    prepend a (prepend b result) = prepend (a ++ b) result := by
  obtain _ | _ | c := result
  · rfl
  · rfl
  · rw [prepend_ok, prepend_ok, prepend_ok, List.append_assoc]

theorem joined_packet (p : Octets) (answers : List (Option (Except Error Octets))) :
    joined (some (.ok p) :: answers) = prepend p (joined answers) := rfl

/-- An answer that is no packet with octets ends the stream. -/
theorem joined_singleton {answer : Option (Except Error Octets)} (h : packetOf answer = []) :
    joined [answer] = answer := by
  obtain _ | _ | p := answer
  · rfl
  · rfl
  · obtain rfl : p = [] := h
    rfl

theorem joined_packets (packets : List Octets) (answers : List (Option (Except Error Octets))) :
    joined (packets.map packet ++ answers) =
      prepend packets.flatten (joined answers) := by
  induction packets with
  | nil => exact (prepend_nil _).symm
  | cons p packets ih =>
    rw [List.map_cons, List.cons_append, packet, joined_packet, ih, prepend_prepend,
      List.flatten_cons]

variable {τ : Type} [PacketStream τ]

/-- The answers are packets with octets, and then one that is none. -/
theorem exists_answers_eq (t : τ) : ∃ (packets : List Octets) (last : Option (Except Error Octets)),
    (answers t).1 = packets.map packet ++ [last] ∧ (∀ p ∈ packets, p ≠ []) ∧
      packetOf last = [] := by
  fun_induction answers t with
  | case1 t t' h => exact ⟨[], some (.ok []), rfl, List.forall_mem_nil _, rfl⟩
  | case2 t p t' h hp hlt rest t'' hrest ih =>
    obtain ⟨packets, last, hanswers, hne, hlast⟩ := ih
    refine ⟨p :: packets, last, ?_, List.forall_mem_cons.2 ⟨hp, hne⟩, hlast⟩
    rw [hrest] at hanswers
    exact congrArg (some (.ok p) :: ·) hanswers
  | case3 t e t' h => exact ⟨[], some (.error e), rfl, List.forall_mem_nil _, rfl⟩
  | case4 t t' h => exact ⟨[], none, rfl, List.forall_mem_nil _, rfl⟩

theorem collectAfter_eq (earlier : List Octets) (t : τ) : collectAfter earlier t =
    (prepend earlier.reverse.flatten (joined (answers t).1), (answers t).2) := by
  fun_induction collectAfter earlier t with
  | case1 earlier t t' h =>
    rw [answers_of_end h rfl, joined_singleton rfl, prepend_ok, List.append_nil]
  | case2 earlier t p t' h hp hlt ih =>
    rw [ih, answers_of_packet h hp, joined_packet, prepend_prepend, List.reverse_cons,
      List.flatten_append, List.flatten_singleton]
  | case3 earlier t e t' h =>
    rw [answers_of_end h rfl]
    rfl
  | case4 earlier t t' h =>
    rw [answers_of_end h rfl]
    rfl

/-- To read a whole stream is to pull it to its end and to join the packets. That streams of one
packet or of none are not copied makes no difference. -/
theorem collect_eq_joined (t : τ) : collect t = (joined (answers t).1, (answers t).2) := by
  unfold collect
  split
  · rename_i first u h
    split
    · rename_i hfirst
      subst hfirst
      rw [answers_of_end h rfl]
      rfl
    · rename_i hfirst
      rw [answers_of_packet h hfirst]
      split
      · rename_i second v h'
        split
        · rename_i hsecond
          subst hsecond
          rw [answers_of_end h' rfl, joined_packet, joined_singleton rfl, prepend_ok,
            List.append_nil]
        · rename_i hsecond
          rw [collectAfter_eq, answers_of_packet h' hsecond, joined_packet, joined_packet,
            prepend_prepend]
          simp
      · rename_i h'
        rw [answers_of_end h' rfl]
        rfl
      · rename_i h'
        rw [answers_of_end h' rfl]
        rfl
  · rename_i h
    rw [answers_of_end h rfl]
    rfl
  · rename_i h
    rw [answers_of_end h rfl]
    rfl

theorem collectAfter_nil (t : τ) : collectAfter [] t = collect t := by
  rw [collectAfter_eq, collect_eq_joined, List.reverse_nil, List.flatten_nil, prepend_nil]

/-- Single pulls that give packets with octets and then an answer that is none are all the pulls up
to the end. -/
theorem answers_of_pulls {packets : List Octets} {last : Option (Except Error Octets)} {t t' : τ}
    (hne : ∀ p ∈ packets, p ≠ []) (hlast : packetOf last = [])
    (h : pulls (packets.length + 1) t = (packets.map packet ++ [last], t')) :
    answers t = (packets.map packet ++ [last], t') := by
  induction packets generalizing t with
  | nil =>
    obtain ⟨hanswer, hrest⟩ := Prod.mk.inj h
    have hnext : next t = (last, t') := Prod.ext (List.head_eq_of_cons_eq hanswer) hrest
    exact answers_of_end hnext hlast
  | cons p packets ih =>
    obtain ⟨hp, hne⟩ := List.forall_mem_cons.1 hne
    obtain ⟨hanswers, hrest⟩ := Prod.mk.inj h
    obtain ⟨hfirst, hothers⟩ := List.cons.inj hanswers
    have hnext : next t = (some (.ok p), (next t).2) := Prod.ext hfirst rfl
    rw [answers_of_packet hnext hp, ih hne (Prod.ext hothers hrest)]
    rfl

/-- What reading a whole stream comes to, and the stream after it, told by single pulls: as many as
there are packets with octets, and one more. -/
inductive Collects (t : τ) : Option (Except Error Octets) → τ → Prop
  | ended {packets : List Octets} {t' : τ} (nonempty : ∀ p ∈ packets, p ≠ [])
    (pulled : pulls (packets.length + 1) t = (packets.map packet ++ [some (.ok [])], t')) :
    Collects t (some (.ok packets.flatten)) t'
  | failed {packets : List Octets} {e : Error} {t' : τ} (nonempty : ∀ p ∈ packets, p ≠ [])
    (pulled : pulls (packets.length + 1) t = (packets.map packet ++ [some (.error e)], t')) :
    Collects t (some (.error e)) t'
  | stalled {packets : List Octets} {t' : τ} (nonempty : ∀ p ∈ packets, p ≠ [])
    (pulled : pulls (packets.length + 1) t = (packets.map packet ++ [none], t')) :
    Collects t none t'

theorem collect_of_pulls {packets : List Octets} {last : Option (Except Error Octets)} {t t' : τ}
    (hne : ∀ p ∈ packets, p ≠ []) (hlast : packetOf last = [])
    (h : pulls (packets.length + 1) t = (packets.map packet ++ [last], t')) :
    collect t = (prepend packets.flatten last, t') := by
  rw [collect_eq_joined, answers_of_pulls hne hlast h, joined_packets, joined_singleton hlast]

theorem Collects.collect_eq {t t' : τ} {r : Option (Except Error Octets)} (h : Collects t r t') :
    collect t = (r, t') := by
  cases h with
  | ended nonempty pulled =>
    rw [collect_of_pulls nonempty rfl pulled, prepend_ok, List.append_nil]
  | failed nonempty pulled =>
    rw [collect_of_pulls nonempty rfl pulled]
    rfl
  | stalled nonempty pulled =>
    rw [collect_of_pulls nonempty rfl pulled]
    rfl

theorem collects_collect (t : τ) : Collects t (collect t).1 (collect t).2 := by
  obtain ⟨packets, last, hanswers, hne, hlast⟩ := exists_answers_eq t
  have hpulls := pulls_length_answers t
  rw [hanswers, List.length_append, List.length_map, List.length_singleton] at hpulls
  have hpulled : pulls (packets.length + 1) t = (packets.map packet ++ [last], (answers t).2) :=
    hpulls.trans (Prod.ext hanswers rfl)
  rw [collect_of_pulls hne hlast hpulled]
  obtain _ | e | p := last
  · exact .stalled hne hpulled
  · exact .failed hne hpulled
  · obtain rfl : p = [] := hlast
    rw [prepend_ok, List.append_nil]
    exact .ended hne hpulled

/-- Reading a whole stream is the plain loop from the start, and comes exactly to what single pulls
up to the first empty packet or error come to. -/
theorem collect_iff_collects (t : τ) : collect t = collectAfter [] t ∧
    ∀ r t', collect t = (r, t') ↔ Collects t r t' := by
  refine ⟨(collectAfter_nil t).symm, fun r t' => ⟨?_, Collects.collect_eq⟩⟩
  intro h
  have hcollects := collects_collect t
  rwa [h] at hcollects

end HttpWire.PacketStream

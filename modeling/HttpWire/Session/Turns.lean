import HttpWire.Session

/-! The jobs of a session have their turns, round by round. Each turn takes a job away or leaves it
less to do (`turn_next_below`), so that the rounds come to an end (`round_below`). -/
namespace HttpWire.Session

/-- Give up the body of a response nobody waits for. -/
def discard (result : Except Error Response) (s : Session) : Session :=
  match result with
  | .ok ⟨_, _, _, some body⟩ => { s with peer := body.release s.peer }
  | _ => s

def settle (id : Nat) (result : Except Error Response) (s : Session) : Session :=
  if s.promises.any (·.1 == id) then
    { s with promises := s.promises.map fun (i, p) => (i, if i = id then p.settle result else p) }
  else s.discard result

/-- A turn of an exchange. If it stalls, it is the one that waits from now on. -/
def turnExchange (id : Nat) (x : Exchange) (s : Session) : Session :=
  match x.turn s.peer with
  | (.ended result, _, peer) => ({ s with peer }.rouse .join).settle id result
  | (.again, x, peer) => { s with peer, roster := s.roster.join ⟨id, .running x⟩ }
  | (.spent, x, peer) => { s with peer, roster := s.roster.rest ⟨id, .running x⟩ }
  | (.stalled, x, peer) => { s with peer, waiter := some ⟨id, .running x⟩ }

/-- A turn of a job, which connects first if it has not yet. -/
def turn (j : Job) (s : Session) : Session :=
  match j.stage with
  | .running x => s.turnExchange j.id x
  | .queued sender r =>
    let s := { s with asked := (sender.transport, r.uri) :: s.asked }
    match sender.client.start r with
    | .error e => s.settle j.id (.error e)
    | .ok x => s.turnExchange j.id x

def turnsPerRound : Nat := 61

/-- Jobs have their turns until none is ready, but at most so many. Then those that rest are ready
again. -/
def round : Nat → Session → Session
  | 0, s => { s with roster := s.roster.resume }
  | n + 1, s =>
    match s.roster.next with
    | (none, roster) => { s with roster := roster.resume }
    | (some j, roster) => ({ s with roster }.turn j).round n

/-- A job that is ready counts more than one that waits. -/
def work (s : Session) : Nat := s.roster.total (fun _ => 2) + s.waiter.toList.length

def load (s : Session) : Nat := Connection.supply s.peer + s.roster.total Job.share

/-- What is left to do in `s` is less than `work` and `load`. -/
def Below (s : Session) (work load : Nat) : Prop := s.work < work ∨ s.work = work ∧ s.load < load

theorem work_settle (id : Nat) (result : Except Error Response) (s : Session) :
    (s.settle id result).work = s.work := by
  unfold settle discard
  split
  · rfl
  · split <;> rfl

theorem work_rouse_le (s : Session) : (s.rouse .join).work ≤ s.work + 1 := by
  unfold rouse
  split
  · omega
  · rename_i j hj
    split
    · omega
    · simp only [work, hj, Roster.total_join, Option.toList_some, Option.toList_none,
        List.length_cons, List.length_nil]
      omega

theorem turnExchange_below (id : Nat) (x : Exchange) (s : Session) :
    (s.turnExchange id x).Below (s.work + 2) (s.load + x.share) := by
  unfold turnExchange Below
  split
  · left
    rw [work_settle]
    have := work_rouse_le { s with peer := ‹Peer› }
    simp only [work] at this ⊢
    omega
  · rename_i y peer h
    right
    have := Stepwise.supply_turn_again h
    simp only [Stepwise.supply] at this
    simp only [work, load, Roster.total_join, Job.share]
    omega
  · rename_i y peer h
    right
    have := Stepwise.supply_turn_spent (by decide) h
    simp only [Stepwise.supply] at this
    simp only [work, load, Roster.total_rest, Job.share]
    omega
  · left
    simp only [work, Option.toList_some, List.length_cons, List.length_nil]
    omega

theorem turn_below (j : Job) (s : Session) : (s.turn j).Below (s.work + 2) (s.load + j.share) := by
  unfold turn
  split
  · rename_i x hj
    simpa only [Job.share, hj] using s.turnExchange_below j.id x
  · rename_i sender r hj
    split
    · left
      rw [work_settle]
      exact Nat.lt_add_of_pos_right (by decide)
    · rename_i x hx
      have hshare : j.share = x.share := by simp only [Job.share, hj, Client.share_start hx]
      rw [hshare]
      exact turnExchange_below j.id x { s with asked := (sender.transport, r.uri) :: s.asked }

theorem turn_next_below {s : Session} {j : Job} {roster : Roster Job}
    (h : s.roster.next = (some j, roster)) : ({ s with roster }.turn j).Below s.work s.load := by
  have hb := turn_below j { s with roster }
  have hw := Roster.total_next_some (f := fun _ => 2) h
  have hl := Roster.total_next_some (f := Job.share) h
  simp only [Below, work, load] at hb ⊢
  omega

theorem round_below_succ (n : Nat) (s : Session) : (s.round n).Below s.work (s.load + 1) := by
  induction n generalizing s with
  | zero =>
    refine .inr ⟨?_, ?_⟩
    · simp only [round, work, Roster.total_resume]
    · simp only [round, load, Roster.total_resume, Nat.lt_succ_self]
  | succ n ih =>
    unfold round
    split
    · rename_i roster h
      refine .inr ⟨?_, ?_⟩
      · simp only [work, Roster.total_resume, Roster.total_next_none h]
      · simp only [load, Roster.total_resume, Roster.total_next_none h, Nat.lt_succ_self]
    · rename_i j roster h
      have := ih ({ s with roster }.turn j)
      have := turn_next_below h
      unfold Below at *
      omega

theorem round_below {n : Nat} {s : Session} (hn : 0 < n) (hs : s.roster.isIdle = false) :
    (s.round n).Below s.work s.load := by
  cases n with
  | zero => omega
  | succ n =>
    unfold round
    split
    · rename_i roster h
      simp [Roster.isIdle_of_next_none h] at hs
    · rename_i j roster h
      have := round_below_succ n ({ s with roster }.turn j)
      have := turn_next_below h
      unfold Below at *
      omega

/-- Run rounds, unless something is the case already, until it is or no job is ready. -/
def runUntil (done : Session → Bool) (s : Session) : Session :=
  if done s then s
  else
    let next := s.round turnsPerRound
    if h : s.roster.isIdle || next.roster.isIdle then next
    else
      have hs := (Bool.or_eq_false_iff.1 (Bool.eq_false_iff.2 h)).1
      have := round_below (n := turnsPerRound) (by decide) hs
      runUntil done next
termination_by (s.work, s.load)
decreasing_by exact Prod.lex_def.2 this

end HttpWire.Session

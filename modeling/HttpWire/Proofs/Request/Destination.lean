import HttpWire.Proofs.Request.Building
import HttpWire.Proofs.Uri.Authority
import HttpWire.Tcp.Network

/-! Where a request goes. Its host field and the end of its connection are read off the authority
each on its own, and agree on the host and on the port. What they do not keep to is a port text that
is no number of 16 bits, which counts as left out, and a host of nothing but brackets. -/
namespace HttpWire

namespace Tcp.Target

/-- `core` is what is left of a host without the brackets at its ends. -/
structure Unbracketed (host core : List Char) : Prop where
  ends : ∃ front back, host = front ++ core ++ back ∧ (∀ c ∈ front, c = '[') ∧ ∀ c ∈ back, c = ']'
  first : core.head? ≠ some '['
  last : core.getLast? ≠ some ']'

theorem unbracketed_withoutBrackets (host : List Char) :
    Unbracketed host (withoutBrackets host) := by
  have hcore : withoutBrackets host = (host.dropWhile (· == '[')).rdropWhile (· == ']') := rfl
  rw [hcore]
  constructor
  · obtain ⟨front, back, heq, hfront, hback⟩ := Text.exists_ends (· == '[') (· == ']') host
    exact ⟨front, back, heq, fun c hc => beq_iff_eq.1 (hfront c hc),
      fun c hc => beq_iff_eq.1 (hback c hc)⟩
  · intro hfirst
    have hnone := Text.first_rdropWhile_dropWhile (· == '[') (· == ']') host '[' hfirst
    exact absurd hnone (by decide)
  · intro hlast
    exact absurd (Text.last_rdropWhile (· == ']') _ ']' hlast) (by decide)

/-- Only a host of nothing but brackets is empty without them. -/
theorem Unbracketed.host_eq_of_nil {host rest : List Char} (h : Unbracketed host [])
    (hends : Uri.HostEnds host rest) (hcount : host.count ']' ≤ 1) :
    host = [] ∨ host = ['[', ']'] ∨ host = [']'] := by
  obtain ⟨front, back, heq, hfront, hback⟩ := h.ends
  rw [List.append_nil] at heq
  cases hends with
  | @bracketed inside free =>
    have hnone : inside = [] := by
      refine List.eq_nil_iff_forall_not_mem.2 fun c hc => ?_
      have hmem : c ∈ front ++ back := by
        rw [← heq]
        simp [hc]
      obtain hmem | hmem := List.mem_append.1 hmem
      · exact free.1 (hfront c hmem ▸ hc)
      · exact free.2 (hback c hmem ▸ hc)
    rw [hnone]
    exact .inr (.inl rfl)
  | plain first =>
    cases front with
    | cons c front =>
      rw [heq, List.cons_append, List.head?_cons, hfront c List.mem_cons_self] at first
      exact absurd rfl first
    | nil =>
      obtain rfl : host = back := heq
      have hall := List.eq_replicate_of_mem hback
      have hlength := List.count_eq_length.2 fun c hc => (hback c hc).symm
      rw [hlength] at hcount
      interval_cases hl : host.length
      · exact .inl (List.length_eq_zero_iff.1 hl)
      · exact .inr (.inr hall)

theorem withoutBrackets_eq_nil_iff {p : Uri.Parts} {authority : List Char}
    (h : p.Divide authority) (hpaired : Uri.Paired authority) (hhost : p.host ≠ []) :
    withoutBrackets p.host = [] ↔ p.host = ['[', ']'] ∨ p.host = [']'] := by
  constructor
  · intro hnil
    have hcount := hpaired.count_le_one
    rw [h.eq, List.count_append, List.count_append] at hcount
    have hunbracketed := unbracketed_withoutBrackets p.host
    rw [hnil] at hunbracketed
    exact (hunbracketed.host_eq_of_nil h.host (by omega)).resolve_left hhost
  · rintro (heq | heq)
    · rw [heq]
      rfl
    · rw [heq]
      rfl

theorem ofUri_eq {u : Uri} {host : List Char} {n : Nat} (hhost : u.host = some (String.ofList host))
    (hport : u.port.or (schemePort? u.scheme) = some n) :
    ofUri u = .ok ⟨String.ofList (withoutBrackets host), n⟩ := by
  rw [ofUri, hhost]
  dsimp only
  rw [hport, String.toList_ofList]

end Tcp.Target

namespace Request
open Uri (Parts IsPort)
open Tcp (Target)
open Tcp.Target (Unbracketed withoutBrackets)

/-- The port that a scheme has of its own. -/
inductive SchemePort : Option String → Nat → Prop
  | http : SchemePort (some "http") 80
  | https : SchemePort (some "https") 443

/-- The value of the only host field that is sent, and the end of the connection. -/
structure Reaches (r : Request) (field : String) (t : Target) : Prop where
  field_eq : Field.under (Text.lower "Host") r.wireFields = [("Host", field)]
  target_eq : Target.ofUri r.uri = .ok t

/-- Host field and connection as they come from the parts of an authority. The port is that of the
scheme where the authority names none. -/
inductive Directed (scheme : Option String) (p : Parts) : String → Target → Prop
  | named {n : Nat} {core : List Char} (port : IsPort p.port n) (host : Unbracketed p.host core) :
    Directed scheme p (String.ofList p.host ++ (":" ++ toString n)) ⟨String.ofList core, n⟩
  | unnamed {n : Nat} {core : List Char} (port : ∀ n, ¬ IsPort p.port n)
    (own : SchemePort scheme n) (host : Unbracketed p.host core) :
    Directed scheme p (String.ofList p.host) ⟨String.ofList core, n⟩

/-- Host field and connection keep to an authority: there is a host to connect to, a port text
names the port of both, and only without a port text the port is that of the scheme. -/
structure Honours (scheme : Option String) (p : Parts) (field : String) (t : Target) : Prop where
  host_ne : t.host ≠ ""
  host : Unbracketed p.host t.host.toList
  named : p.port ≠ [] → ∃ n, IsPort p.port n ∧
    field = String.ofList p.host ++ (":" ++ toString n) ∧ t.port = n
  unnamed : p.port = [] → field = String.ofList p.host ∧ SchemePort scheme t.port

theorem Directed.honours_iff {scheme : Option String} {p : Parts} {field : String} {t : Target}
    (h : Directed scheme p field t) :
    Honours scheme p field t ↔ t.host ≠ "" ∧ (p.port = [] ∨ ∃ n, IsPort p.port n) := by
  constructor
  · intro hhonours
    refine ⟨hhonours.host_ne, ?_⟩
    by_cases hport : p.port = []
    · exact .inl hport
    · obtain ⟨n, hn, -⟩ := hhonours.named hport
      exact .inr ⟨n, hn⟩
  · rintro ⟨hne, hport⟩
    cases h with
    | @named n core isPort host =>
      refine ⟨hne, ?_, fun _ => ⟨n, isPort, rfl, rfl⟩, fun hnil => ?_⟩
      · rw [String.toList_ofList]
        exact host
      · rw [hnil] at isPort
        exact absurd isPort (Uri.not_isPort_nil n)
    | unnamed port own host =>
      refine ⟨hne, ?_, fun hsome => ?_, fun _ => ⟨rfl, own⟩⟩
      · rw [String.toList_ofList]
        exact host
      · obtain ⟨n, hn⟩ := hport.resolve_left hsome
        exact absurd hn (port n)

/-- No other derived field has the name. -/
theorem under_host_derivedFields (r : Request) :
    Field.under (Text.lower "Host") r.derivedFields = [("Host", r.uri.hostAndPort)] := by
  have hkey : Field.key ("Host", r.uri.hostAndPort) = Text.lower "Host" := rfl
  rw [derivedFields, Field.under_cons_of_eq hkey, Field.under_eq_nil]
  intro f hf
  split at hf
  · exact absurd hf List.not_mem_nil
  obtain hf | hf := List.mem_append.1 hf
  · obtain ⟨n, -, rfl⟩ := Option.map_eq_some_iff.1 (Option.mem_toList.1 hf)
    show Text.lower "Content-Length" ≠ _
    decide +kernel
  · obtain rfl := List.mem_singleton.1 hf
    show Text.lower "Content-Type" ≠ _
    decide +kernel

theorem under_host_wireFields (r : Request) :
    Field.under (Text.lower "Host") r.wireFields = [("Host", r.uri.hostAndPort)] := by
  rw [overrides_wireFields r, under_host_derivedFields, if_neg (List.cons_ne_nil _ _)]

theorem exists_schemePort {u : Uri} (h : Draft.SchemeKnown u) :
    ∃ n, Target.schemePort? u.scheme = some n ∧ SchemePort u.scheme n := by
  obtain h | h := h
  · rw [h]
    exact ⟨80, by decide +kernel, .http⟩
  · rw [h]
    exact ⟨443, by decide +kernel, .https⟩

theorem exists_authority {u : Uri} (h : ¬ Draft.HostMissing u) :
    ∃ authority, u.authority = some authority := by
  rw [← Option.ne_none_iff_exists']
  intro hnone
  refine h (.inl ?_)
  rw [Uri.host, hnone, Option.map_none]

section Authority
variable {u : Uri} {authority : String} {p : Parts}

/-- The host field and the connection agree on the host and, if there is one, on the port. -/
theorem exists_directed (hauthority : u.authority = some authority)
    (hparts : p.Divide authority.toList) (hscheme : Draft.SchemeKnown u) :
    ∃ n, Target.ofUri u = .ok ⟨String.ofList (withoutBrackets p.host), n⟩ ∧
      Directed u.scheme p u.hostAndPort ⟨String.ofList (withoutBrackets p.host), n⟩ := by
  have hcore := Tcp.Target.unbracketed_withoutBrackets p.host
  have hhost := hparts.host_eq hauthority
  cases hport : u.port with
  | some n =>
    have hfield : u.hostAndPort = String.ofList p.host ++ (":" ++ toString n) := by
      rw [Uri.hostAndPort, hhost, hport]
      rfl
    refine ⟨n, Tcp.Target.ofUri_eq hhost (by rw [hport, Option.some_or]), ?_⟩
    rw [hfield]
    exact .named ((hparts.port_eq_some_iff hauthority).1 hport) hcore
  | none =>
    have hfield : u.hostAndPort = String.ofList p.host := by
      rw [Uri.hostAndPort, hhost, hport]
      exact String.append_empty
    have hnone : ∀ n, ¬ IsPort p.port n := by
      intro n hn
      have hsome := (hparts.port_eq_some_iff hauthority).2 hn
      exact Option.some_ne_none n (hsome.symm.trans hport)
    obtain ⟨own, hown, hschemePort⟩ := exists_schemePort hscheme
    refine ⟨own, Tcp.Target.ofUri_eq hhost (by rw [hport, Option.none_or, hown]), ?_⟩
    rw [hfield]
    exact .unnamed hnone hschemePort hcore

/-- All that a request in a known scheme keeps of its authority. -/
theorem honours_iff_of_uri (hauthority : u.authority = some authority)
    (hparts : p.Divide authority.toList) (hpaired : Uri.Paired authority.toList)
    (hscheme : Draft.SchemeKnown u) (hhost : ¬ Draft.HostMissing u) {t : Target}
    (ht : Target.ofUri u = .ok t) :
    Directed u.scheme p u.hostAndPort t ∧ (Honours u.scheme p u.hostAndPort t ↔
      p.host ≠ ['[', ']'] ∧ p.host ≠ [']'] ∧ (p.port = [] ∨ ∃ n, IsPort p.port n)) := by
  obtain ⟨n, htarget, hdirected⟩ := exists_directed hauthority hparts hscheme
  obtain rfl := Except.ok.inj (ht.symm.trans htarget)
  have hne : p.host ≠ [] := by
    intro hnil
    have hsome := hparts.host_eq hauthority
    rw [hnil] at hsome
    exact hhost (.inr hsome)
  have hempty : String.ofList (withoutBrackets p.host) ≠ "" ↔
      p.host ≠ ['[', ']'] ∧ p.host ≠ [']'] := by
    rw [← not_or, ← Tcp.Target.withoutBrackets_eq_nil_iff hparts hpaired hne, not_iff_not]
    exact String.ofList_eq_empty_iff
  refine ⟨hdirected, ?_⟩
  rw [hdirected.honours_iff, hempty, and_assoc]

end Authority

/-- A request goes to one host and one port, which its only host field names. They are those of the
authority, unless its host is nothing but brackets or its port text is no port. -/
theorem honours_iff_of_build {text : String} {d : Draft} {r : Request}
    (hread : Uri.parse text = .ok d.uri) (hbuild : d.build = .ok r) :
    ∃ authority field t, r.uri.authority = some authority ∧ r.Reaches field t ∧
      (∃ p : Parts, p.Divide authority.toList) ∧
      ∀ p : Parts, p.Divide authority.toList → Directed r.uri.scheme p field t ∧
        (Honours r.uri.scheme p field t ↔
          p.host ≠ ['[', ']'] ∧ p.host ≠ [']'] ∧ (p.port = [] ∨ ∃ n, IsPort p.port n)) := by
  obtain ⟨hpasses, rfl⟩ := Draft.build_eq_ok_iff.1 hbuild
  have hscheme := Draft.knownScheme_iff.1 hpasses.scheme
  have hhost := Draft.hasHost_iff.1 hpasses.host
  obtain ⟨authority, hauthority⟩ := exists_authority hhost
  have hpaired := Uri.hasPairedAuthority_of_parse hread authority hauthority
  obtain ⟨p, hparts⟩ := Uri.Parts.exists_divide hpaired
  obtain ⟨n, htarget, -⟩ := exists_directed hauthority hparts hscheme
  refine ⟨authority, d.uri.hostAndPort, _, hauthority, ⟨under_host_wireFields _, htarget⟩,
    ⟨p, hparts⟩, fun p' hparts' => ?_⟩
  exact honours_iff_of_uri hauthority hparts' hpaired hscheme hhost htarget

/-- Colons in the user information and in the brackets are not that of the port. -/
theorem honours_of_build_bracketed :
    let p : Parts := ⟨['u', ':', '1', '@'], ['[', ':', ':', '1', ']'], [':'], "+08443".toList⟩
    ∃ (d : Draft) (r : Request) (field : String) (t : Target),
      Uri.parse "http://u:1@[::1]:+08443/" = .ok d.uri ∧ d.build = .ok r ∧
      r.uri.authority = some "u:1@[::1]:+08443" ∧ p.Divide "u:1@[::1]:+08443".toList ∧
      r.Reaches field t ∧ Honours r.uri.scheme p field t := by
  intro p
  let uri : Uri :=
    ⟨some "http", some "u:1@[::1]:+08443", "/", none, by decide +kernel, by decide +kernel,
      by decide +kernel⟩
  let d := Draft.new .get uri
  have hread : Uri.parse "http://u:1@[::1]:+08443/" = .ok d.uri := by decide +kernel
  have hsome : d.build.toOption.isSome = true := by decide +kernel
  have hparts : p.Divide "u:1@[::1]:+08443".toList := by
    constructor
    · decide +kernel
    · exact .inr ⟨['u', ':', '1'], rfl⟩
    · decide +kernel
    · have hfree : Uri.Bracketless [':', ':', '1'] := ⟨by decide, by decide⟩
      exact .bracketed hfree _
    · exact .inr ⟨[], rfl⟩
    · decide +kernel
  have hport : IsPort p.port 8443 := Uri.numeral?_eq_some_iff_isPort.1 (by decide +kernel)
  cases hbuild : d.build with
  | error e => simp [hbuild, Except.toOption] at hsome
  | ok r =>
    obtain ⟨authority, field, t, hauthority, hreaches, -, hall⟩ := honours_iff_of_build hread hbuild
    obtain ⟨-, rfl⟩ := Draft.build_eq_ok_iff.1 hbuild
    obtain rfl : "u:1@[::1]:+08443" = authority := Option.some.inj hauthority
    have hhonours := (hall p hparts).2.2 ⟨by decide, by decide, .inr ⟨8443, hport⟩⟩
    exact ⟨d, _, field, t, hread, hbuild, hauthority, hparts, hreaches, hhonours⟩

/-- A number that is too large for a port is left out of the host field, and the connection goes to
the port of the scheme. -/
theorem not_honours_of_build_large :
    let p : Parts := ⟨[], ['h'], [':'], "99999".toList⟩
    ∃ (d : Draft) (r : Request), Uri.parse "http://h:99999/" = .ok d.uri ∧ d.build = .ok r ∧
      r.uri.authority = some "h:99999" ∧ p.Divide "h:99999".toList ∧ r.Reaches "h" ⟨"h", 80⟩ ∧
      ¬ ∃ field t, r.Reaches field t ∧ Honours r.uri.scheme p field t := by
  intro p
  let uri : Uri :=
    ⟨some "http", some "h:99999", "/", none, by decide +kernel, by decide +kernel,
      by decide +kernel⟩
  let d := Draft.new .get uri
  have hread : Uri.parse "http://h:99999/" = .ok d.uri := by decide +kernel
  have hfield : d.uri.hostAndPort = "h" := by decide +kernel
  have htarget : Target.ofUri d.uri = .ok ⟨"h", 80⟩ := by decide +kernel
  have hsome : d.build.toOption.isSome = true := by decide +kernel
  have hparts : p.Divide "h:99999".toList := by
    constructor
    · decide +kernel
    · exact .inl rfl
    · decide +kernel
    · exact .plain (by decide) (by decide) fun c hc => (Option.some.inj hc).symm
    · exact .inr ⟨[], rfl⟩
    · decide +kernel
  have hport (n : Nat) : ¬ IsPort p.port n := by
    intro hn
    have hnone : Text.numeral? 65536 p.port = none := by decide +kernel
    exact Option.some_ne_none n ((Uri.numeral?_eq_some_iff_isPort.2 hn).symm.trans hnone)
  cases hbuild : d.build with
  | error e => simp [hbuild, Except.toOption] at hsome
  | ok r =>
    obtain ⟨-, rfl⟩ := Draft.build_eq_ok_iff.1 hbuild
    refine ⟨d, _, hread, hbuild, rfl, hparts, ⟨?_, htarget⟩, ?_⟩
    · rw [under_host_wireFields, hfield]
    · rintro ⟨field, t, -, hhonours⟩
      obtain ⟨n, hn, -⟩ := hhonours.named (by decide +kernel)
      exact hport n hn

end Request
end HttpWire

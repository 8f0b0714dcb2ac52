import HttpWire.Client
import HttpWire.Proofs.Body.Delivery
import HttpWire.Proofs.Exchange.Arrival

/-! Where every octet of the input goes in an exchange that ends with a body. -/
namespace HttpWire
namespace Exchange

/-- The input is `head` and then `rest`: the head was decoded from its own octets, and the body is
taken from `rest` and leaves alone what is past the declared length. -/
structure Accounted (maxLine : Nat) (whole head rest : Octets) (response : Response)
    (body : Response.Body) (s : Script) : Prop where
  whole_eq : whole = head ++ rest
  head_ends : ∃ i, Octets.FirstBlankAt whole i ∧ head.length = i + 4
  head_alone :
    let o := (Head.Decoder.new maxLine).feed .empty head
    o.result = .ok (some ⟨response.status, response.reason, response.headers⟩) ∧
      o.buffer.toOctets = []
  length_eq : body.reader.length = Response.declaredLength response.headers
  /-- All pulls up to the end. -/
  delivered : ∃ packets : List Octets,
    PacketStream.pulls (packets.length + 1) (body.reader, s) =
      PacketStream.answers (body.reader, s) ∧
    (PacketStream.answers (body.reader, s)).1 =
      packets.map (fun p => some (.ok p)) ++ [some (BodyReader.endOf body.reader.length rest)] ∧
    packets.flatten = BodyReader.bodyOf body.reader.length rest
  /-- No read is made once the head and a body of `n` octets are there, however many pulls
  follow. -/
  reads : ∀ n k, body.reader.length = some n →
    (PacketStream.pulls k (body.reader, s)).2.2.ReadsOnlyWhile (·.length < head.length + n)
  /-- The connection can be recovered once `n` octets were handed out. -/
  recovered : ∀ n k, body.reader.length = some n →
    (PacketStream.handedOut (PacketStream.pulls k (body.reader, s)).1).length = n →
    ∃ surplus, (PacketStream.pulls k (body.reader, s)).2.1.recover? = some surplus ∧
      surplus ++ (PacketStream.pulls k (body.reader, s)).2.2.unread = rest.drop n

variable {whole : Octets} {maxLine : Nat} {s : Script} {response : Response}
  {body : Response.Body}

/-- What was received when no head was complete is shorter than the head. -/
theorem length_lt_of_unfinished {head rest received : Octets} {d : Head.Decoder} {h : Head}
    (hhead : (Head.Decoder.new maxLine).rescan head = (.ok (some h), d, []))
    (hreceived : received <+: head ++ rest) (hopen : Head.Unfinished maxLine received) :
    received.length < head.length := by
  by_cases hlt : received.length < head.length
  · exact hlt
  · obtain ⟨more, rfl⟩ := List.prefix_of_prefix_length_le (List.prefix_append head rest) hreceived
      (Nat.not_lt.1 hlt)
    rw [Head.Unfinished, Head.Decoder.rescan_append hhead] at hopen
    simp [Head.Decoder.isSettled] at hopen

theorem Arrives.exists_ledger (h : Arrives whole maxLine s response body) :
    ∃ head rest d, whole = head ++ rest ∧
      (∃ i, Octets.FirstBlankAt whole i ∧ head.length = i + 4) ∧
      (Head.Decoder.new maxLine).rescan head =
        (.ok (some ⟨response.status, response.reason, response.headers⟩), d, []) ∧
      BodyReader.Ledger head rest [] body.reader s := by
  obtain ⟨d, hrescan⟩ := h.received
  have hwhole := Head.Decoder.rescan_append hrescan s.unread
  rw [h.whole_eq, Head.Decoder.isSettled, if_pos rfl] at hwhole
  obtain ⟨head, i, heq, hblank, hlen, hhead⟩ := Head.Decoder.head_of_rescan_new hwhole
  -- the head of the whole input is the one that was decoded from what had come
  have hreceived : s.received = head ++ body.reader.leftover := by
    have hsplit := h.whole_eq.trans heq
    rw [← List.append_assoc] at hsplit
    exact List.append_cancel_right hsplit
  obtain ⟨source, hopen, hsize, hreader⟩ := h.reader_eq
  have hretained : body.reader.retained = body.reader.leftover := by
    rw [hreader]
    exact List.append_nil _
  refine ⟨head, _, d, heq, ⟨i, hblank, hlen⟩, hhead, ?_⟩
  constructor
  · rw [hreader]
    rfl
  · rw [hretained, hreceived, List.nil_append]
  · rw [hretained, List.nil_append]
  · intro hne
    rw [hreader] at hne
    exact absurd rfl hne
  · intro n _
    rw [hreader]
    exact Nat.zero_le n
  · intro n _
    refine h.reads.imp fun b hb hunfinished => ?_
    have hprefix : b <+: head ++ body.reader.leftover := hreceived ▸ hb
    have := length_lt_of_unfinished hhead hprefix hunfinished
    omega

theorem Arrives.accounted (h : Arrives whole maxLine s response body) :
    ∃ head rest, Accounted maxLine whole head rest response body s := by
  obtain ⟨head, rest, d, hwhole, hends, hhead, hledger⟩ := h.exists_ledger
  obtain ⟨source, hopen, hsize, hreader⟩ := h.reader_eq
  have hflows : body.reader.Flows s := by
    rw [hreader]
    exact ⟨hopen, hsize, h.smooth⟩
  have hdone : body.reader.done = false := by
    rw [hreader]
    rfl
  refine ⟨head, rest, ?_⟩
  constructor
  · exact hwhole
  · exact hends
  · rw [Head.Decoder.rescan_new] at hhead
    exact ⟨(Prod.mk.inj hhead).1, (Prod.mk.inj (Prod.mk.inj hhead).2).2⟩
  · rw [hreader]
    rfl
  · obtain ⟨packets, hanswers, hflatten⟩ :=
      BodyReader.Ledger.answers_eq (t := (body.reader, s)) hledger hflows hdone
    refine ⟨packets, ?_, hanswers, hflatten⟩
    have hpulls := PacketStream.pulls_length_answers (body.reader, s)
    rwa [hanswers, List.length_append, List.length_map, List.length_singleton] at hpulls
  · intro n k hn
    have hk := BodyReader.Ledger.pulls (t := (body.reader, s)) hledger k
    have hlength := (BodyReader.kept_pulls k (body.reader, s)).1
    exact hk.reads n (hlength.trans hn)
  · intro n k hn hout
    have hk := BodyReader.Ledger.pulls (t := (body.reader, s)) hledger k
    obtain ⟨hlength, hsource⟩ := BodyReader.kept_pulls k (body.reader, s)
    refine hk.recover?_eq (hlength.trans hn) hout ?_
    rw [hsource]
    exact hflows.isOpen

end Exchange

/-- Input that ends only after its last item, cut into reads in any way, with interruptions
anywhere: whenever there is a response with a body, all of the input is accounted for. -/
theorem Client.run_accounted {c : Client} {r : Request} {x x' : Exchange}
    {reads : List Script.ReadItem} {writes : List Script.WriteItem}
    {flushError shutdownError : Option IoError} {s : Script} {response : Response}
    {body : Response.Body} (hreads : ∀ item ∈ reads, item.isSmooth = true)
    (hstart : c.start r = .ok x)
    (hrun : x.run (.new reads writes flushError shutdownError) = (some (.ok response), x', s))
    (hbody : response.body = some body) :
    ∃ head rest, Exchange.Accounted c.limits.maxLine (reads.flatMap Script.ReadItem.octets)
      head rest response body s := by
  have hnew : x = .new r c.limits := by
    unfold start at hstart
    split at hstart
    · simp at hstart
    · exact (Except.ok.inj hstart).symm
  rw [hnew] at hrun
  exact (Exchange.arrives_of_run hreads hrun hbody).accounted

/-- The last line end of the head is cut in two, and more comes than the body. -/
theorem Client.run_accounted_of_cut_line_end :
    let reads : List Script.ReadItem :=
      [.data (Octets.ofText "HTTP/1.1 200 OK\r\nContent-Length: 3\r\n\r"), .failure .interrupted,
        .notReady, .data (Octets.ofText "\nabcde")]
    let c : Client := ⟨.direct, ⟨64, 32⟩, .running⟩
    ∃ (r : Request) (x x' : Exchange) (s : Script) (response : Response) (body : Response.Body)
      (head rest : Octets), (∀ item ∈ reads, item.isSmooth = true) ∧ c.start r = .ok x ∧
      x.run (.new reads [] none none) = (some (.ok response), x', s) ∧ response.body = some body ∧
      Exchange.Accounted 32 (reads.flatMap Script.ReadItem.octets) head rest response body s := by
  intro reads c
  let r : Request :=
    ⟨.get, ⟨some "http", some "h", "/", none, by decide +kernel, by decide +kernel, by simp⟩,
      .empty, none⟩
  have hsmooth : ∀ item ∈ reads, item.isSmooth = true := by decide +kernel
  have hbody : ((((Exchange.new r c.limits).run (.new reads [] none none : Script)).1.bind
      Except.toOption).bind Response.body).isSome = true := by decide +kernel
  obtain ⟨body, hbody⟩ := Option.isSome_iff_exists.1 hbody
  obtain ⟨response, hresponse, hbody⟩ := Option.bind_eq_some_iff.1 hbody
  obtain ⟨result, hresult, hok⟩ := Option.bind_eq_some_iff.1 hresponse
  obtain rfl : result = .ok response := by
    cases result with
    | error e => simp [Except.toOption] at hok
    | ok r => simpa [Except.toOption] using hok
  have hstart : c.start r = .ok (.new r c.limits) := rfl
  have hrun : (Exchange.new r c.limits).run (.new reads [] none none : Script) =
      (some (.ok response), _) := Prod.ext hresult rfl
  obtain ⟨head, rest, haccounted⟩ := run_accounted hsmooth hstart hrun hbody
  exact ⟨r, _, _, _, response, body, head, rest, hsmooth, hstart, hrun, hbody, haccounted⟩

end HttpWire

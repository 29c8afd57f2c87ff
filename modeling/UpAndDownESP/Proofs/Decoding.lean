import UpAndDownESP.Proofs.FrameFormat
import UpAndDownESP.Proofs.Stream
import UpAndDownESP.Spec.Decoder

namespace UpAndDownESP.Proofs.Decoding
open BigEndian FrameFormat Proofs.Stream Spec

/-! ### The head -/

/-- What a 16-bit destination held before is shifted out by two bytes. -/
theorem collect_pair (dest : UInt16) (hi lo : UInt8) :
    collect16 (collect16 dest hi) lo = word hi lo := by
  apply UInt16.toNat_inj.mp
  have hhi := hi.toNat_lt
  have hlo := lo.toNat_lt
  rw [word]
  simp only [toNat_collect16, collect_eq]
  omega

theorem take_head_bytes {p : Parser} (hs : p.state = .sof) (id l₁ l₀ type : UInt8) :
    ∃ q : Parser, Mealy.run takeByte p [tfSofByte, id, l₁, l₀, type] = (q, []) ∧
      q.state = .headCksum ∧ q.rxi = 0 ∧ q.id = id ∧ q.len = word l₁ l₀ ∧ q.type = type ∧
      q.discardData = false ∧ q.cksum = cksum [tfSofByte, id, l₁, l₀, type] := by
  simp only [Mealy.run, takeByte, fresh, parseByte, hs, parsBeginFrame, if_true, collect8_eq,
    Nat.zero_add, OfNat.one_ne_ofNat, if_false, Nat.reduceAdd, collect_pair, Option.toList_none,
    List.append_nil]
  exact ⟨_, rfl, rfl, rfl, rfl, rfl, rfl, rfl, rfl⟩

/-- Part of a payload has been received. It is stored only if all of it fits. -/
structure Body (p : Parser) (state : TfState) (index : Nat) (got : List UInt8) : Prop where
  state : p.state = state
  index : p.rxi = index
  discard : p.discardData = decide (tfMaxPayloadRx < p.len.toNat)
  kept : p.len.toNat ≤ tfMaxPayloadRx →
    p.cksum = got.foldl cksumAdd cksumStart ∧ p.data.toList.take got.length = got

theorem take_head_cksum_bytes {q : Parser} (hs : q.state = .headCksum) (hx : q.rxi = 0)
    (hd : q.discardData = false) (k₁ k₀ : UInt8) :
    ∃ r : Parser, r.id = q.id ∧ r.type = q.type ∧ r.len = q.len ∧
      if q.cksum ≠ word k₁ k₀ then r.state = .sof ∧ Mealy.run takeByte q [k₁, k₀] = (r, [])
      else if q.len = 0 then
        r.state = .sof ∧ Mealy.run takeByte q [k₁, k₀] = (r, [receivedMsg r])
      else Body r .data 0 [] ∧ Mealy.run takeByte q [k₁, k₀] = (r, []) := by
  by_cases hsum : q.cksum = word k₁ k₀
  · by_cases hz : q.len = 0
    · refine ⟨{ q with
        state := .sof, parserTimeoutTicks := 0, len := 0, rxi := 2, refCksum := word k₁ k₀
        cksum := word k₁ k₀ },
        rfl, rfl, hz.symm, ?_⟩
      rw [if_neg (not_not.mpr hsum), if_pos hz]
      simp [Mealy.run, takeByte, fresh, parseByte, hs, hx, collect_pair, cksumEnd, hsum, hz,
        tfResetParser, receivedMsg]
    · refine ⟨{ q with
        state := .data, parserTimeoutTicks := 0, rxi := 0, refCksum := word k₁ k₀
        cksum := cksumStart, discardData := decide (tfMaxPayloadRx < q.len.toNat) },
        rfl, rfl, rfl, ?_⟩
      rw [if_neg (not_not.mpr hsum), if_neg hz]
      refine ⟨⟨rfl, rfl, rfl, fun _ => ⟨rfl, rfl⟩⟩, ?_⟩
      simp [Mealy.run, takeByte, fresh, parseByte, hs, hx, collect_pair, cksumEnd, hsum, hz, hd]
  · refine ⟨{ q with
      state := .sof, parserTimeoutTicks := 0, rxi := 2, refCksum := word k₁ k₀ },
      rfl, rfl, rfl, ?_⟩
    rw [if_pos hsum]
    simp [Mealy.run, takeByte, fresh, parseByte, hs, hx, collect_pair, cksumEnd, hsum,
      tfResetParser]

/-! ### The payload -/

/-- One byte of a payload, stored or not: either more is to come, or its checksum is
next. -/
theorem body_byte {p : Parser} {got : List UInt8} (h : Body p .data got.length got) (c : UInt8)
    (hlt : got.length < p.len.toNat) :
    ∃ r : Parser, takeByte p c = (r, none) ∧ r.id = p.id ∧ r.type = p.type ∧ r.len = p.len ∧
      if got.length + 1 = p.len.toNat then Body r .dataCksum 0 (got ++ [c])
      else Body r .data (got ++ [c]).length (got ++ [c]) := by
  have hx := h.index
  by_cases hfit : p.len.toNat ≤ tfMaxPayloadRx
  · have hd : p.discardData = false := by
      rw [h.discard]
      exact decide_eq_false (Nat.not_lt.mpr hfit)
    obtain ⟨hsum, hstored⟩ := h.kept hfit
    have hkept : cksumAdd p.cksum c = (got ++ [c]).foldl cksumAdd cksumStart ∧
        (p.data.setIfInBounds got.length c).toList.take (got ++ [c]).length = got ++ [c] := by
      constructor
      · rw [List.foldl_append, ← hsum]
        rfl
      · have hset := take_set_snoc (c := c) hstored (by rw [Vector.length_toList]; omega)
        simpa using hset
    by_cases hend : got.length + 1 = p.len.toNat
    · refine ⟨{ p with
        state := .dataCksum, parserTimeoutTicks := 0, rxi := 0, refCksum := 0
        cksum := cksumAdd p.cksum c, data := p.data.setIfInBounds got.length c }, ?_, rfl, rfl, rfl, ?_⟩
      · simp [takeByte, fresh, parseByte, h.state, hx, hd, hend]
      · rw [if_pos hend]
        exact ⟨rfl, rfl, h.discard, fun _ => hkept⟩
    · refine ⟨{ p with
        parserTimeoutTicks := 0, rxi := got.length + 1
        cksum := cksumAdd p.cksum c, data := p.data.setIfInBounds got.length c }, ?_, rfl, rfl, rfl, ?_⟩
      · simp [takeByte, fresh, parseByte, h.state, hx, hd, hend]
      · rw [if_neg hend]
        exact ⟨h.state, by simp, h.discard, fun _ => hkept⟩
  · have hd : p.discardData = true := by
      rw [h.discard]
      exact decide_eq_true (Nat.lt_of_not_le hfit)
    by_cases hend : got.length + 1 = p.len.toNat
    · refine ⟨{ p with
        state := .dataCksum, parserTimeoutTicks := 0, rxi := 0, refCksum := 0 }, ?_, rfl, rfl, rfl, ?_⟩
      · simp [takeByte, fresh, parseByte, h.state, hx, hd, hend]
      · rw [if_pos hend]
        exact ⟨rfl, rfl, h.discard, fun h => absurd h hfit⟩
    · refine ⟨{ p with parserTimeoutTicks := 0, rxi := got.length + 1 }, ?_, rfl, rfl, rfl, ?_⟩
      · simp [takeByte, fresh, parseByte, h.state, hx, hd, hend]
      · rw [if_neg hend]
        exact ⟨h.state, by simp, h.discard, fun h => absurd h hfit⟩

/-- Any part of a payload. -/
theorem take_body (bs : List UInt8) {p : Parser} {got : List UInt8}
    (h : Body p .data got.length got) (hlt : got.length < p.len.toNat)
    (hlen : got.length + bs.length ≤ p.len.toNat) :
    ∃ r : Parser, Mealy.run takeByte p bs = (r, []) ∧ r.id = p.id ∧ r.type = p.type ∧
      r.len = p.len ∧
      if got.length + bs.length = p.len.toNat then Body r .dataCksum 0 (got ++ bs)
      else Body r .data (got ++ bs).length (got ++ bs) := by
  induction bs generalizing p got with
  | nil =>
    refine ⟨p, rfl, rfl, rfl, rfl, ?_⟩
    rw [if_neg (by rw [List.length_nil]; omega), List.append_nil]
    exact h
  | cons c bs ih =>
    rw [List.length_cons] at hlen
    obtain ⟨q, hq, hid, htype, hl, hnext⟩ := body_byte h c hlt
    by_cases hend : got.length + 1 = p.len.toNat
    · rw [if_pos hend] at hnext
      have hbs : bs = [] := List.length_eq_zero_iff.mp (by omega)
      subst hbs
      refine ⟨q, ?_, hid, htype, hl, ?_⟩
      · rw [Mealy.run, hq]
        rfl
      · rw [List.length_singleton, if_pos hend]
        exact hnext
    · rw [if_neg hend] at hnext
      have hgot : (got ++ [c]).length = got.length + 1 := by simp
      obtain ⟨r, hr, hid', htype', hl', hbody⟩ :=
        ih hnext (by rw [hl, hgot]; omega) (by rw [hl, hgot]; omega)
      refine ⟨r, ?_, hid'.trans hid, htype'.trans htype, hl'.trans hl, ?_⟩
      · rw [Mealy.run, hq, hr]
        rfl
      · rw [hl, hgot, List.append_assoc, List.singleton_append, Nat.add_assoc,
          Nat.add_comm 1] at hbody
        exact hbody

/-- The checksum of a payload decides whether it is handed up. -/
theorem take_body_cksum {q : Parser} {payload : List UInt8} (h : Body q .dataCksum 0 payload)
    (hlen : q.len.toNat = payload.length) (hi lo : UInt8) :
    ∃ r : Parser, r.state = .sof ∧ Mealy.run takeByte q [hi, lo] =
      (r, if payload.length ≤ tfMaxPayloadRx ∧ cksum payload = word hi lo then [receivedMsg q]
        else []) := by
  refine ⟨{ q with
    state := .sof, parserTimeoutTicks := 0, rxi := 2, refCksum := word hi lo }, rfl, ?_⟩
  by_cases hfit : payload.length ≤ tfMaxPayloadRx
  · have hd : q.discardData = false := by
      rw [h.discard, hlen]
      exact decide_eq_false (Nat.not_lt.mpr hfit)
    have hsum : q.cksum = cksum payload := (h.kept (by rw [hlen]; exact hfit)).1
    by_cases hck : cksum payload = word hi lo
    · rw [if_pos ⟨hfit, hck⟩]
      simp [Mealy.run, takeByte, fresh, parseByte, h.state, h.index, hd, collect_pair, cksumEnd,
        hsum, hck, tfResetParser, receivedMsg]
    · rw [if_neg fun hboth => hck hboth.2]
      simp [Mealy.run, takeByte, fresh, parseByte, h.state, h.index, hd, collect_pair, cksumEnd,
        hsum, hck, tfResetParser]
  · have hd : q.discardData = true := by
      rw [h.discard, hlen]
      exact decide_eq_true (Nat.lt_of_not_le hfit)
    rw [if_neg fun hboth => hfit hboth.1]
    simp [Mealy.run, takeByte, fresh, parseByte, h.state, h.index, hd, collect_pair, cksumEnd,
      tfResetParser]

/-- Within a payload and its checksum nothing is handed up. -/
theorem body_cut {q : Parser} (h : Body q .data 0 []) (hz : q.len ≠ 0) (bs : List UInt8)
    (hcut : bs.length < q.len.toNat + 2) : (Mealy.run takeByte q bs).2 = [] := by
  have hpos : 0 < q.len.toNat := by
    apply Nat.pos_of_ne_zero
    intro h0
    exact hz (UInt16.toNat_inj.mp h0)
  have h0 : Body q .data ([] : List UInt8).length [] := h
  obtain ⟨r, hr, -, -, hlen, hbody⟩ := take_body (bs.take q.len.toNat) h0 hpos (by simp)
  rw [← List.take_append_drop q.len.toNat bs, Mealy.run_append, hr, List.nil_append]
  cases hrest : bs.drop q.len.toNat with
  | nil => rfl
  | cons c rest =>
    have hl := congrArg List.length hrest
    simp only [List.length_drop, List.length_cons] at hl
    have hone : rest = [] := List.length_eq_zero_iff.mp (by omega)
    rw [if_pos (by simp; omega)] at hbody
    subst hone
    simp [Mealy.run, takeByte, fresh, parseByte, hbody.state, hbody.index]

/-! ### Whole strings -/

theorem take_head_whole {p : Parser} (hs : p.state = .sof) (id l₁ l₀ type k₁ k₀ : UInt8) :
    ∃ r : Parser, r.id = id ∧ r.type = type ∧ r.len = word l₁ l₀ ∧
      if cksum [tfSofByte, id, l₁, l₀, type] ≠ word k₁ k₀ then
        r.state = .sof ∧ Mealy.run takeByte p [tfSofByte, id, l₁, l₀, type, k₁, k₀] = (r, [])
      else if word l₁ l₀ = 0 then
        r.state = .sof ∧
          Mealy.run takeByte p [tfSofByte, id, l₁, l₀, type, k₁, k₀] = (r, [receivedMsg r])
      else
        Body r .data 0 [] ∧
          Mealy.run takeByte p [tfSofByte, id, l₁, l₀, type, k₁, k₀] = (r, []) := by
  obtain ⟨q, hq, hstate, hx, hid, hlen, htype, hd, hsum⟩ := take_head_bytes hs id l₁ l₀ type
  obtain ⟨r, hid', htype', hlen', hr⟩ := take_head_cksum_bytes hstate hx hd k₁ k₀
  refine ⟨r, hid'.trans hid, htype'.trans htype, hlen'.trans hlen, ?_⟩
  have hrun : Mealy.run takeByte p [tfSofByte, id, l₁, l₀, type, k₁, k₀] =
      Mealy.run takeByte q [k₁, k₀] := by
    change Mealy.run takeByte p ([tfSofByte, id, l₁, l₀, type] ++ [k₁, k₀]) = _
    rw [Mealy.run_append, hq]
    rfl
  rw [hrun, ← hlen, ← hsum]
  exact hr

/-- Within a head nothing is handed up. -/
theorem head_cut {p : Parser} (hs : p.state = .sof) {bs : List UInt8} (hcut : bs.length < 6) :
    (Mealy.run takeByte p (tfSofByte :: bs)).2 = [] := by
  have hfive : ∀ id l₁ l₀ type k₁ : UInt8,
      (Mealy.run takeByte p [tfSofByte, id, l₁, l₀, type, k₁]).2 = [] := by
    intro id l₁ l₀ type k₁
    obtain ⟨q, hq, hstate, hx, -⟩ := take_head_bytes hs id l₁ l₀ type
    change (Mealy.run takeByte p ([tfSofByte, id, l₁, l₀, type] ++ [k₁])).2 = []
    rw [Mealy.run_append, hq]
    simp [Mealy.run, takeByte, fresh, parseByte, hstate, hx]
  have hpad : ∀ cs : List UInt8, (bs ++ cs).length = 5 →
      (Mealy.run takeByte p (tfSofByte :: (bs ++ cs))).2 = [] := by
    intro cs hlen
    obtain ⟨a, b, c, d, e, he⟩ : ∃ a b c d e, bs ++ cs = [a, b, c, d, e] := by
      generalize bs ++ cs = head at hlen
      rcases head with _ | ⟨a, _ | ⟨b, _ | ⟨c, _ | ⟨d, _ | ⟨e, _ | ⟨f, rest⟩⟩⟩⟩⟩⟩
      case cons.cons.cons.cons.cons.nil => exact ⟨a, b, c, d, e, rfl⟩
      all_goals simp at hlen
    rw [he]
    exact hfive a b c d e
  have hrun := hpad (List.replicate (5 - bs.length) 0) (by simp; omega)
  rw [← List.cons_append, Mealy.run_append] at hrun
  exact (List.append_eq_nil_iff.mp hrun).1

theorem readFrame_none {bs : List UInt8} (h : readFrame bs = none) :
    bs.length < 6 ∨ ∃ id l₁ l₀ type k₁ k₀ rest, bs = id :: l₁ :: l₀ :: type :: k₁ :: k₀ :: rest ∧
      cksum [tfSofByte, id, l₁, l₀, type] = word k₁ k₀ ∧ word l₁ l₀ ≠ 0 ∧
      rest.length < (word l₁ l₀).toNat + 2 := by
  match bs with
  | id :: l₁ :: l₀ :: type :: k₁ :: k₀ :: rest =>
    right
    rw [readFrame_head] at h
    split at h
    · cases h
    · rename_i hsum
      split at h
      · cases h
      · rename_i hz
        refine ⟨id, l₁, l₀, type, k₁, k₀, rest, rfl, not_not.mp hsum, hz, ?_⟩
        unfold readBody at h
        split at h
        · cases h
        · rename_i hshort
          by_contra hlong
          cases hd : rest.drop (word l₁ l₀).toNat with
          | nil =>
            have := congrArg List.length hd
            simp only [List.length_drop, List.length_nil] at this
            omega
          | cons hi rest' =>
            cases rest' with
            | nil =>
              have := congrArg List.length hd
              simp only [List.length_drop, List.length_cons, List.length_nil] at this
              omega
            | cons lo rest' => exact hshort hi lo rest' hd
  | [] | [_] | [_, _] | [_, _, _] | [_, _, _, _] | [_, _, _, _, _] => left; simp

theorem frame_cut {p : Parser} (hs : p.state = .sof) {bs : List UInt8} (h : readFrame bs = none) :
    (Mealy.run takeByte p (tfSofByte :: bs)).2 = [] := by
  rcases readFrame_none h with hcut | ⟨id, l₁, l₀, type, k₁, k₀, rest, rfl, hsum, hz, hshort⟩
  · exact head_cut hs hcut
  · obtain ⟨r, -, -, hlen, hr⟩ := take_head_whole hs id l₁ l₀ type k₁ k₀
    rw [if_neg (not_not.mpr hsum), if_neg hz] at hr
    change (Mealy.run takeByte p ([tfSofByte, id, l₁, l₀, type, k₁, k₀] ++ rest)).2 = []
    rw [Mealy.run_append, hr.2]
    exact body_cut hr.1 (by rw [hlen]; exact hz) rest (by rw [hlen]; exact hshort)

theorem frame_item {p : Parser} (hs : p.state = .sof) {bs rest : List UInt8} {v : Option Message}
    (h : readFrame bs = some (v, rest)) :
    ∃ used, bs = used ++ rest ∧ (Mealy.run takeByte p (tfSofByte :: used)).1.state = .sof ∧
      (Mealy.run takeByte p (tfSofByte :: used)).2.map said = v.toList := by
  obtain ⟨id, l₁, l₀, type, k₁, k₀, body, rfl⟩ := readFrame_some h
  obtain ⟨r, hid, htype, hlen, hr⟩ := take_head_whole hs id l₁ l₀ type k₁ k₀
  rw [readFrame_head] at h
  split at h
  · rename_i hbad
    cases h
    rw [if_pos hbad] at hr
    refine ⟨[id, l₁, l₀, type, k₁, k₀], rfl, ?_⟩
    rw [hr.2]
    exact ⟨hr.1, rfl⟩
  · rename_i hgood
    rw [if_neg hgood] at hr
    split at h
    · rename_i hz
      cases h
      rw [if_pos hz] at hr
      refine ⟨[id, l₁, l₀, type, k₁, k₀], rfl, ?_⟩
      rw [hr.2]
      refine ⟨hr.1, ?_⟩
      simp [said, receivedMsg, hid, htype, hlen, hz]
    · rename_i hz
      rw [if_neg hz] at hr
      obtain ⟨hbody, hrun⟩ := hr
      obtain ⟨hi, lo, hbs, htake, rfl⟩ := readBody_some h
      have hpos : 0 < (word l₁ l₀).toNat := by
        apply Nat.pos_of_ne_zero
        intro h0
        exact hz (UInt16.toNat_inj.mp h0)
      have h0 : Body r .data ([] : List UInt8).length [] := hbody
      obtain ⟨q, hq, hid', htype', hlen', hfull⟩ := take_body (body.take (word l₁ l₀).toNat) h0
        (by rw [hlen]; exact hpos) (by rw [hlen]; simp)
      rw [if_pos (by rw [hlen, htake]; simp)] at hfull
      rw [List.nil_append] at hfull
      obtain ⟨t, ht, hlast⟩ := take_body_cksum hfull (by rw [hlen', hlen, htake]) hi lo
      refine ⟨[id, l₁, l₀, type, k₁, k₀] ++ body.take (word l₁ l₀).toNat ++ [hi, lo], ?_, ?_⟩
      · conv => lhs; rw [hbs]
        simp
      · have hwhole : Mealy.run takeByte p (tfSofByte ::
            ([id, l₁, l₀, type, k₁, k₀] ++ body.take (word l₁ l₀).toNat ++ [hi, lo])) =
            Mealy.run takeByte q [hi, lo] := by
          rw [← List.cons_append, ← List.cons_append, Mealy.run_append, Mealy.run_append, hrun, hq]
          rfl
        rw [hwhole, hlast, htake]
        refine ⟨ht, ?_⟩
        split
        · rename_i hgood
          have hstored := (hfull.kept (by rw [hlen', hlen]; exact hgood.1)).2
          rw [htake] at hstored
          simp only [List.map_cons, List.map_nil, said, receivedMsg, Option.getD_some, hlen', hlen,
            hstored, Option.toList_some]
          rw [hid', hid, htype', htype]
        · rfl

theorem idle_byte {p : Parser} (hs : p.state = .sof) {c : UInt8} (hc : c ≠ tfSofByte) :
    takeByte p c = (fresh p, none) := by
  simp [takeByte, fresh, parseByte, hs, hc]

/-- An idle parser decodes every string of bytes. -/
theorem parser_decodes {p : Parser} (hs : p.state = .sof) (bs : List UInt8) :
    (Mealy.run takeByte p bs).2.map said = decode bs := by
  apply reader.run_decodes takeByte (fun p : Parser => p.state = .sof) said
  · intro p bs hp h
    cases bs with
    | nil => rfl
    | cons c bs =>
      change readItem (c :: bs) = none at h
      rw [readItem_cons] at h
      split at h
      · rename_i hc
        subst hc
        exact frame_cut hp h
      · cases h
  · intro p bs v rest hp h
    cases bs with
    | nil => cases h
    | cons c bs =>
      change readItem (c :: bs) = some (v, rest) at h
      rw [readItem_cons] at h
      split at h
      · rename_i hc
        subst hc
        obtain ⟨used, hused, hrun⟩ := frame_item hp h
        exact ⟨tfSofByte :: used, by rw [hused]; rfl, hrun⟩
      · rename_i hc
        cases h
        refine ⟨[c], rfl, ?_⟩
        simp only [Mealy.run, idle_byte hp hc]
        exact ⟨hp, rfl⟩
  · exact hs

/-! ### Histories -/

/-- The parser's clock shows `k`, as far as it goes. -/
def Shows (p : Parser) (k : Nat) : Prop :=
  min p.parserTimeoutTicks tfParserTimeoutTicks = min k tfParserTimeoutTicks

theorem Shows.tick {p : Parser} {k : Nat} (h : Shows p k) : Shows (tickParser p) (k + 1) := by
  unfold Shows tickParser at *
  split
  · dsimp only
    omega
  · omega

/-- A late byte finds the parser reset, whatever it was doing. -/
theorem late_byte {p : Parser} (h : tfParserTimeoutTicks ≤ p.parserTimeoutTicks) (c : UInt8) :
    parseChar p c = takeByte (tfResetParser p) c := by
  by_cases hs : p.state = .sof
  · have hsame : tfResetParser p = p := by rw [tfResetParser, ← hs]
    rw [hsame]
    exact parseChar_inTime (Or.inl hs)
  · simp only [parseChar, if_pos (And.intro h hs)]
    rfl

/-- The first segment is taken up where the parser stands, each other one from its start. -/
theorem history_segments (is : List (Option UInt8)) {p q : Parser} {k : Nat}
    (hpq : fresh p = fresh q) (hk : Shows p k) :
    ∃ first rest, segments k is = first :: rest ∧
      (Mealy.run parserStep p is).2.map said =
        (Mealy.run takeByte q first).2.map said ++ rest.flatMap decode := by
  induction is generalizing p q k with
  | nil => exact ⟨[], [], rfl, rfl⟩
  | cons i is ih =>
    cases i with
    | none =>
      obtain ⟨first, rest, hseg, hrun⟩ := ih ((fresh_tick p).trans hpq) hk.tick
      exact ⟨first, rest, hseg, by simpa [Mealy.run, parserStep] using hrun⟩
    | some c =>
      have hzero : Shows (parseChar p c).1 0 := by rw [Shows, parseChar_ticks]
      have hclock : min p.parserTimeoutTicks tfParserTimeoutTicks = min k tfParserTimeoutTicks := hk
      obtain ⟨first, rest, hseg, hrun⟩ := ih (q := (parseChar p c).1) rfl hzero
      by_cases hlate : k < tfParserTimeoutTicks
      · refine ⟨c :: first, rest, ?_, ?_⟩
        · simp only [segments, hseg, if_pos hlate, List.headD_cons, List.tail_cons]
        · have hstep : parseChar p c = takeByte q c := by
            rw [parseChar_inTime (Or.inr (by omega)), takeByte, hpq]
            rfl
          rw [Mealy.run, Mealy.run, parserStep, List.map_append, hrun, hstep, List.map_append,
            List.append_assoc]
      · refine ⟨[], (c :: first) :: rest, ?_, ?_⟩
        · simp only [segments, hseg, if_neg hlate, List.headD_cons, List.tail_cons]
        · have hstep := late_byte (p := p) (by omega) c
          have hdec := parser_decodes (p := tfResetParser p) rfl (c :: first)
          rw [Mealy.run, ← hstep, List.map_append] at hdec
          simp only [Mealy.run, parserStep, List.map_append, hrun, ← List.append_assoc, hdec]
          rfl

/-- How long the line was quiet before the first byte makes no difference. -/
theorem segments_start (is : List (Option UInt8)) (j k : Nat) :
    (segments j is).flatMap decode = (segments k is).flatMap decode := by
  have hnil : decode [] = [] := reader.decode_none rfl
  induction is generalizing j k with
  | nil => rfl
  | cons i is ih =>
    cases i with
    | none => exact ih (j + 1) (k + 1)
    | some c =>
      have hany : ∀ n, (segments n (some c :: is)).flatMap decode =
          ((c :: (segments 0 is).headD []) :: (segments 0 is).tail).flatMap decode := by
        intro n
        simp only [segments]
        split
        · rfl
        · rw [List.flatMap_cons, hnil, List.nil_append]
      rw [hany, hany]

/-- What an idle parser hands up, whatever bytes and ticks come. -/
theorem history_decodes {p : Parser} (hs : p.state = .sof) (is : List (Option UInt8)) :
    (Mealy.run parserStep p is).2.map said = (segments 0 is).flatMap decode := by
  obtain ⟨first, rest, hseg, hrun⟩ :=
    history_segments is (p := p) (q := p) (k := p.parserTimeoutTicks) rfl rfl
  rw [hrun, parser_decodes hs, segments_start is 0 p.parserTimeoutTicks, hseg]
  rfl

/-! ### The peer -/

theorem peer_hears {acts : List PeerAct} {p : Peer} (h : Bare p.tf) :
    (Runs.run peerStep p acts).received =
      p.received ++ (Mealy.run parserStep p.tf.parser (acts.flatMap inputs)).2 := by
  induction acts generalizing p with
  | nil => simp
  | cons act acts ih =>
    have hstep := peer_step h act
    have h' : Bare (peerStep p act).tf := by
      rw [hstep]
      exact ⟨h.ids, h.types, h.generics, h.one⟩
    have hrest := ih h'
    rw [hstep] at hrest
    rw [Runs.run_cons, hstep, List.flatMap_cons, Mealy.run_append, hrest, List.append_assoc]

/-- Whatever bytes and ticks come, in whatever chunks, the peer receives exactly the
messages that its history says when it is cut at every gap of fifty ticks and each piece
is read as a whole. -/
theorem peer_decodes {parser : Parser} (hs : parser.state = .sof) (acts : List PeerAct) :
    (Runs.run peerStep (listening parser) acts).received.map said =
      (segments 0 (acts.flatMap inputs)).flatMap decode := by
  rw [peer_hears (p := listening parser) ⟨rfl, rfl, rfl, rfl⟩]
  exact history_decodes (p := (listening parser).tf.parser) hs (acts.flatMap inputs)

/-- A frame cut short, a gap, and a frame in two chunks. -/
def brokenLine : List PeerAct :=
  .accept [0xff, 0x01, 0x02] :: (List.replicate 50 .tick ++
    [.accept [0x01, 0x00], .accept ((frameBytes 0x00 msgTypeEvent [0x01, 0x02]).drop 2)])

theorem broken_line_decodes :
    (Runs.run peerStep (listening (tfInitStatic Unit Empty .slave).parser)
        brokenLine).received.map said =
      (segments 0 (brokenLine.flatMap inputs)).flatMap decode :=
  peer_decodes rfl brokenLine

end UpAndDownESP.Proofs.Decoding

import Fuyao.RoundTrip.RoundTrip
import Mathlib.Data.List.Basic
import Mathlib.Order.Basic

/-!
# Proofs: when the server acknowledges

The server's sum counts the bytes that have been received, as long as there are any. With complete data
it ends at the first fragment that completes them. Without data it acknowledges nothing at all, and when
a peer closes in the middle of its block it goes on for ever.
-/

namespace RoundTrip

open Cpp

/-! ## Rules for loops -/

section Loops

variable {σ ε : Type} {body : ℕ → σ → Except ε σ} {goes_on : σ → Bool} {Inv Post : ℕ → σ → Prop}

/-- The first round, and then the rest of the loop. -/
theorem doWhile_succ {i : ℕ} {s s' : σ} (h : body i s = .ok s') (fuel : ℕ) :
    doWhile body goes_on (fuel + 1) i s =
      if goes_on s' then doWhile body goes_on fuel (i + 1) s' else .ok (some (i + 1, s')) := by
  rw [doWhile, h]
  rfl

/-- What a loop that has ended leaves. -/
theorem Maintains.post (hbody : Maintains body goes_on Inv Post) (fuel : ℕ) :
    ∀ (i : ℕ) (s : σ) (j : ℕ) (s' : σ), Inv i s →
      doWhile body goes_on fuel i s = .ok (some (j, s')) → Post j s' := by
  induction fuel with
  | zero =>
    intro i s j s' _ h
    simp [doWhile] at h
  | succ fuel ih =>
    intro i s j s' hinv h
    obtain ⟨t, ht, hgo, hstop⟩ := hbody i s hinv
    rw [doWhile_succ ht] at h
    by_cases hgoes : goes_on t = true
    · rw [if_pos hgoes] at h
      exact ih (i + 1) t j s' (hgo hgoes) h
    · rw [if_neg hgoes] at h
      obtain ⟨rfl, rfl⟩ : i + 1 = j ∧ t = s' := by simpa using h
      exact hstop (by simpa using hgoes)

/-- A loop whose invariant holds in fewer than `bound` rounds ends. -/
theorem Maintains.ends (hbody : Maintains body goes_on Inv Post) {bound : ℕ}
    (hbound : ∀ i s, Inv i s → i < bound) {i : ℕ} {s : σ} (hinv : Inv i s) :
    ∃ fuel j s', doWhile body goes_on fuel i s = .ok (some (j, s')) := by
  -- by induction on the number of rounds that are left
  induction hleft : bound - i generalizing i s with
  | zero =>
    have := hbound i s hinv
    omega
  | succ left ih =>
    obtain ⟨t, ht, hgo, -⟩ := hbody i s hinv
    by_cases hgoes : goes_on t = true
    · obtain ⟨fuel, j, s', h⟩ := ih (hgo hgoes) (by omega)
      exact ⟨fuel + 1, j, s', by rw [doWhile_succ ht, if_pos hgoes, h]⟩
    · exact ⟨1, i + 1, t, by rw [doWhile_succ ht, if_neg hgoes]⟩

/-- A loop whose exit test never succeeds goes on for ever. -/
theorem Maintains.forever (hbody : Maintains body goes_on Inv fun _ _ => False) (fuel : ℕ) :
    ∀ (i : ℕ) (s : σ), Inv i s → doWhile body goes_on fuel i s = .ok none := by
  induction fuel with
  | zero =>
    intro i s _
    rfl
  | succ fuel ih =>
    intro i s hinv
    obtain ⟨t, ht, hgo, hstop⟩ := hbody i s hinv
    have hgoes : goes_on t = true := by
      by_contra hends
      exact hstop (by simpa using hends)
    rw [doWhile_succ ht, if_pos hgoes]
    exact ih (i + 1) t (hgo hgoes)

end Loops

/-! ## Results of `recv` -/

theorem Fragment.length_pos (f : Fragment) : 0 < f.bytes.length := List.length_pos_iff.mpr f.nonempty

theorem toInt_receivedBytes (f : Fragment) : (Received.data f).receivedBytes.toInt = f.bytes.length := by
  have hfits := f.fits
  rw [bufferSize] at hfits
  exact Int64.toInt_ofNat_of_lt (by omega)

theorem receivedBytes_pos (f : Fragment) : 0 < (Received.data f).receivedBytes := by
  have hpos := f.length_pos
  rw [Int64.lt_iff_toInt_lt, toInt_receivedBytes]
  simpa using hpos

variable {c : Connection}

theorem recv_data {i : ℕ} {f : Fragment} (h : c.fragments[i]? = some f) : c.recv i = .data f := by
  rw [Connection.recv, h]

theorem recv_ended {i : ℕ} (h : c.fragments.length ≤ i) : c.recv i = .ended c.ending := by
  rw [Connection.recv, List.getElem?_eq_none h]

/-- What has been received with the first `n` calls of `recv`. -/
def Connection.receivedBy (c : Connection) (n : ℕ) : Bytes := ((c.fragments.take n).map Fragment.bytes).flatten

theorem receivedBy_succ {i : ℕ} {f : Fragment} (h : c.fragments[i]? = some f) :
    c.receivedBy (i + 1) = c.receivedBy i ++ f.bytes := by
  simp [Connection.receivedBy, List.take_add_one, h]

theorem receivedBy_all {n : ℕ} (h : c.fragments.length ≤ n) : c.receivedBy n = c.data := by
  rw [Connection.receivedBy, List.take_of_length_le h, Connection.data]

/-- Fragments come in the order in which they were sent. -/
theorem receivedBy_prefix_data (n : ℕ) : c.receivedBy n <+: c.data := by
  rw [Connection.receivedBy, Connection.data, ← List.take_append_drop n c.fragments, List.map_append,
    List.flatten_append]
  simp

theorem received_recvs (n : ℕ) :
    received ((List.range n).map fun i => Action.recv (c.recv i)) = c.receivedBy n := by
  induction n with
  | zero => rfl
  | succ n ih =>
    rw [List.range_succ, List.map_append, received, List.flatMap_append, ← received, ih]
    cases h : c.fragments[n]? with
    | none => simp [Connection.receivedBy, List.take_add_one, recv_ended (List.getElem?_eq_none_iff.mp h), h,
        Received.bytes]
    | some f => simp [receivedBy_succ h, recv_data h, Received.bytes]

/-! ## One round -/

theorem size_of_codedSize {b : UInt8} {size : ℕ} (h : codedSize b = some size) :
    0 < size ∧ size ≤ bufferSize := by
  rw [bufferSize]
  unfold codedSize at h
  split_ifs at h <;> cases h <;> omega

/-- For the bytes that stand for a size, the server expects as much as they say. -/
theorem expect_of_codedSize {b : UInt8} {size : ℕ} (s : ReceiveState) (h : codedSize b = some size) :
    (s.expect b).toInt = size := by
  unfold codedSize at h
  unfold ReceiveState.expect
  split_ifs at h ⊢ <;> cases h <;> rfl

theorem look_data {s : ReceiveState} (f : Fragment) :
    s.look (.data f) = { s with
      expected_bytes := if s.first then s.expect (f.bytes.headD 0) else s.expected_bytes
      first := false } := by
  obtain ⟨expected_bytes, sum, first⟩ := s
  cases first
  · rw [ReceiveState.look, if_neg (by simp)]
    rfl
  · rw [ReceiveState.look, if_pos ⟨receivedBytes_pos f, rfl⟩]
    rfl

theorem round_data {s : ReceiveState} (f : Fragment) (hsum : 0 ≤ s.sum.toInt) (hle : s.sum.toInt ≤ bufferSize) :
    ∃ sum, s.round (.data f) = .ok { s.look (.data f) with sum := sum } ∧
      sum.toInt = s.sum.toInt + f.bytes.length := by
  have hfits := f.fits
  rw [bufferSize] at hfits hle
  have hlook : (s.look (.data f)).sum = s.sum := by rw [look_data]
  refine ⟨Int64.ofInt (s.sum.toInt + f.bytes.length), ?_, Int64.toInt_ofInt_of_le (by omega) (by omega)⟩
  rw [ReceiveState.round]
  simp only [hlook, toInt_receivedBytes]
  rw [checkedLong, if_pos (by omega)]
  rfl

/-- A round after the peer has closed changes nothing. -/
theorem round_closed (s : ReceiveState) : s.round (.ended .closed) = .ok s := by
  have hlook : s.look (.ended .closed) = s := if_neg (by simp [Received.receivedBytes])
  have hlt := s.sum.toInt_lt
  have hle := s.sum.le_toInt
  rw [ReceiveState.round]
  simp only [hlook, Received.receivedBytes]
  rw [checkedLong, if_pos (by simp; omega)]
  simp

/-! ## The loop -/

/-- The first byte has been seen, and the sum is the number of bytes received in the first `i` rounds. -/
structure Counted (c : Connection) (size i : ℕ) (s : ReceiveState) : Prop where
  first : s.first = false
  expected : s.expected_bytes.toInt = size
  sum : s.sum.toInt = (c.receivedBy i).length

/-- Before the `i`-th round. -/
def Receiving (c : Connection) (size i : ℕ) (s : ReceiveState) : Prop :=
  i = 0 ∧ s = .initial ∨ Counted c size i s ∧ (c.receivedBy i).length < size

section Coded

variable {b : UInt8} {size i : ℕ} {s : ReceiveState}

theorem Counted.goesOn_iff (h : Counted c size i s) : s.goesOn = true ↔ (c.receivedBy i).length < size := by
  rw [ReceiveState.goesOn, decide_eq_true_iff, Int64.lt_iff_toInt_lt, h.sum, h.expected]
  omega

/-- While there is data, a round counts it. -/
theorem counted_of_data (hhead : c.data.head? = some b) (hcoded : codedSize b = some size)
    (h : Receiving c size i s) {f : Fragment} (hf : c.fragments[i]? = some f) :
    ∃ s', s.round (c.recv i) = .ok s' ∧ Counted c size (i + 1) s' := by
  have hsize := (size_of_codedSize hcoded).2
  rw [recv_data hf]
  rcases h with ⟨rfl, rfl⟩ | ⟨hcounted, hlt⟩
  · -- the first fragment begins with the first byte of all
    have hfirst : f.bytes.headD 0 = b := by
      obtain ⟨fs, hfs⟩ : ∃ fs, c.fragments = f :: fs := by
        cases hfragments : c.fragments with
        | nil => simp [hfragments] at hf
        | cons g gs => exact ⟨gs, by simpa [hfragments] using hf⟩
      obtain ⟨x, xs, hx⟩ := List.exists_cons_of_ne_nil f.nonempty
      simpa [Connection.data, hfs, hx] using hhead
    obtain ⟨sum, hround, hsum⟩ := round_data (s := .initial) f (by decide) (by decide)
    refine ⟨_, hround, ⟨?_, ?_, ?_⟩⟩
    · simp [look_data]
    · rw [look_data]
      change (ReceiveState.expect _ (f.bytes.headD 0)).toInt = size
      rw [hfirst, expect_of_codedSize _ hcoded]
    · rw [receivedBy_succ hf]
      simpa [ReceiveState.initial, Connection.receivedBy] using hsum
  · have hcount := hcounted.sum
    obtain ⟨sum, hround, hsum⟩ := round_data (s := s) f (by omega) (by omega)
    refine ⟨_, hround, ⟨?_, ?_, ?_⟩⟩
    · simp [look_data]
    · simpa [look_data, hcounted.first] using hcounted.expected
    · simp only [receivedBy_succ hf, hsum, hcount, List.length_append]
      push_cast
      rfl

/-- With complete data there is a fragment for every round. -/
theorem exists_fragment (hhead : c.data.head? = some b) (hle : size ≤ c.data.length) (h : Receiving c size i s) :
    i < c.fragments.length := by
  by_contra hend
  have hall := receivedBy_all (c := c) (Nat.not_lt.mp hend)
  rcases h with ⟨rfl, -⟩ | ⟨-, hlt⟩
  · rw [← hall] at hhead
    simp [Connection.receivedBy] at hhead
  · rw [hall] at hlt
    omega

/-- Complete data: the loop goes on exactly until it has been received. -/
theorem maintains_receiving (hhead : c.data.head? = some b) (hcoded : codedSize b = some size)
    (hle : size ≤ c.data.length) :
    Maintains (fun i s => ReceiveState.round s (c.recv i)) ReceiveState.goesOn (Receiving c size)
      fun i _ => 0 < i ∧ size ≤ (c.receivedBy i).length := by
  intro i s h
  have hi := exists_fragment hhead hle h
  obtain ⟨s', hround, hcounted⟩ := counted_of_data hhead hcoded h (List.getElem?_eq_getElem hi)
  refine ⟨s', hround, fun hgoes => ?_, fun hstops => ⟨Nat.succ_pos i, ?_⟩⟩
  · exact .inr ⟨hcounted, hcounted.goesOn_iff.mp hgoes⟩
  · by_contra hlt
    rw [hcounted.goesOn_iff.mpr (Nat.not_le.mp hlt)] at hstops
    cases hstops

/-- Data that stops short of its size, on a connection that has been closed. -/
theorem maintains_short (hhead : c.data.head? = some b) (hcoded : codedSize b = some size)
    (hlt : c.data.length < size) (hclosed : c.ending = .closed) :
    Maintains (fun i s => ReceiveState.round s (c.recv i)) ReceiveState.goesOn (Receiving c size)
      fun _ _ => False := by
  intro i s h
  have hshort : ∀ n, (c.receivedBy n).length < size := by
    intro n
    have hprefix := (receivedBy_prefix_data (c := c) n).length_le
    omega
  obtain ⟨s', hround, hcounted⟩ : ∃ s', s.round (c.recv i) = .ok s' ∧ Counted c size (i + 1) s' := by
    rcases Nat.lt_or_ge i c.fragments.length with hi | hi
    · exact counted_of_data hhead hcoded h (List.getElem?_eq_getElem hi)
    · refine ⟨s, by rw [recv_ended hi, hclosed, round_closed], ?_⟩
      rcases h with ⟨rfl, -⟩ | ⟨hcounted, -⟩
      · rw [← receivedBy_all hi] at hhead
        simp [Connection.receivedBy] at hhead
      · refine ⟨hcounted.first, hcounted.expected, ?_⟩
        rw [hcounted.sum, receivedBy_all hi, receivedBy_all (Nat.le_succ_of_le hi)]
  refine ⟨s', hround, fun _ => .inr ⟨hcounted, hshort _⟩, fun hstops => ?_⟩
  rw [hcounted.goesOn_iff.mpr (hshort _)] at hstops
  cases hstops

end Coded

/-! ## The acknowledgement -/

/-- What the server has done when it has ended the loop after `recvs` rounds. -/
theorem serve_eq_some {fuel : ℕ} {actions : List Action} (h : serve c fuel = .ok (some actions)) :
    ∃ recvs s rest, doWhile (fun i s => ReceiveState.round s (c.recv i)) ReceiveState.goesOn fuel 0 .initial =
        .ok (some (recvs, s)) ∧
      actions = (List.range recvs).map (fun i => Action.recv (c.recv i)) ++ .send ack :: rest ∧
      ∀ a ∈ rest, a ≠ .send ack := by
  rw [serve] at h
  cases hloop : doWhile (fun i s => ReceiveState.round s (c.recv i)) ReceiveState.goesOn fuel 0 .initial with
  | error e => simp [hloop, bind, Except.bind] at h
  | ok result =>
    rw [hloop] at h
    cases result with
    | none => simp [bind, Except.bind, pure, Except.pure] at h
    | some result =>
      obtain ⟨recvs, s⟩ := result
      refine ⟨recvs, s, _, rfl, (Option.some.inj (Except.ok.inj h)).symm, ?_⟩
      simp

theorem Complete.mono {s t : Bytes} (h : Complete s) (hst : s <+: t) : Complete t := by
  obtain ⟨b, size, hhead, hcoded, hle⟩ := h
  obtain ⟨u, rfl⟩ := hst
  refine ⟨b, size, ?_, hcoded, by rw [List.length_append]; omega⟩
  rw [List.head?_append, hhead]
  rfl

/-- Before its acknowledgement the server has received what the rounds of the loop yielded. -/
theorem received_before_ack {fuel : ℕ} {before after : List Action}
    (h : serve c fuel = .ok (some (before ++ .send ack :: after))) :
    ∃ recvs s, doWhile (fun i s => ReceiveState.round s (c.recv i)) ReceiveState.goesOn fuel 0 .initial =
      .ok (some (recvs, s)) ∧ received before = c.receivedBy recvs := by
  obtain ⟨recvs, s, rest, hloop, heq, hrest⟩ := serve_eq_some h
  have hbefore : (List.range recvs).map (fun i => Action.recv (c.recv i)) = before :=
    ((List.append_cons_inj_of_notMem (by simp) fun hmem => hrest _ hmem rfl).mp heq.symm).1
  exact ⟨recvs, s, hloop, by rw [← hbefore, received_recvs]⟩

theorem serve_of_doWhile {fuel recvs : ℕ} {s : ReceiveState}
    (h : doWhile (fun i s => ReceiveState.round s (c.recv i)) ReceiveState.goesOn fuel 0 .initial =
      .ok (some (recvs, s))) : ∃ actions, serve c fuel = .ok (some actions) := by
  rw [serve, h]
  exact ⟨_, rfl⟩

theorem serve_of_doWhile_none {fuel : ℕ}
    (h : doWhile (fun i s => ReceiveState.round s (c.recv i)) ReceiveState.goesOn fuel 0 .initial = .ok none) :
    serve c fuel = .ok none := by
  rw [serve, h]
  rfl

/-- When it acknowledges complete data, the server has received as much as the first byte stands for. -/
theorem size_le_received {b : UInt8} {size fuel : ℕ} {before after : List Action}
    (hhead : c.data.head? = some b) (hcoded : codedSize b = some size) (hle : size ≤ c.data.length)
    (h : serve c fuel = .ok (some (before ++ .send ack :: after))) :
    size ≤ (received before).length ∧ received before <+: c.data := by
  obtain ⟨recvs, s, hloop, hreceived⟩ := received_before_ack h
  have hpost := (maintains_receiving hhead hcoded hle).post fuel 0 .initial recvs s (.inl ⟨rfl, rfl⟩) hloop
  rw [hreceived]
  exact ⟨hpost.2, receivedBy_prefix_data recvs⟩

theorem ends_of_complete {b : UInt8} {size : ℕ} (hhead : c.data.head? = some b) (hcoded : codedSize b = some size)
    (hle : size ≤ c.data.length) : Ends c := by
  obtain ⟨fuel, recvs, s, hloop⟩ := (maintains_receiving hhead hcoded hle).ends
    (fun i s h => exists_fragment hhead hle h) (.inl ⟨rfl, rfl⟩)
  exact ⟨fuel, serve_of_doWhile hloop⟩

/-- A peer that closes before its block is complete keeps the server in the loop. -/
theorem closed_early_never_ends {b : UInt8} {size : ℕ} (hhead : c.data.head? = some b)
    (hcoded : codedSize b = some size) (hlt : c.data.length < size) (hclosed : c.ending = .closed) (fuel : ℕ) :
    serve c fuel = .ok none :=
  serve_of_doWhile_none
    ((maintains_short hhead hcoded hlt hclosed).forever fuel 0 .initial (.inl ⟨rfl, rfl⟩))

/-- For every connection: the receive loop ends and acknowledges only complete data if and only if the
data is complete. -/
theorem acknowledges_complete_iff (c : Connection) : Ends c ∧ AcksComplete c ↔ Complete c.data := by
  constructor
  · rintro ⟨⟨fuel, actions, hserve⟩, hacks⟩
    obtain ⟨recvs, s, rest, -, rfl, -⟩ := serve_eq_some hserve
    have hcomplete := hacks fuel _ hserve _ _ rfl
    rw [received_recvs] at hcomplete
    exact hcomplete.mono (receivedBy_prefix_data recvs)
  · rintro ⟨b, size, hhead, hcoded, hle⟩
    refine ⟨ends_of_complete hhead hcoded hle, ?_⟩
    rintro fuel actions hserve before after rfl
    obtain ⟨hsize, rest, hrest⟩ := size_le_received hhead hcoded hle hserve
    have hpos := (size_of_codedSize hcoded).1
    obtain ⟨x, xs, hx⟩ := List.exists_cons_of_length_pos (Nat.lt_of_lt_of_le hpos hsize)
    refine ⟨b, size, ?_, hcoded, hsize⟩
    rw [hx, ← hhead, ← hrest, hx]
    rfl

/-- The fragment `A`, which stands for 512 bytes. -/
def fragmentA : Fragment := ⟨[65], by decide, by decide⟩

/-- A peer that closes without sending anything is acknowledged, and one that closes after an `A` keeps
the server in the loop. -/
theorem incomplete_data_served :
    (Ends ⟨[], .closed⟩ ∧ ¬ AcksComplete ⟨[], .closed⟩) ∧ ¬ Ends ⟨[fragmentA], .closed⟩ := by
  refine ⟨⟨⟨1, _, rfl⟩, fun h => ?_⟩, ?_⟩
  · obtain ⟨b, size, hhead, -⟩ := h 1 _ rfl [.recv (.ended .closed)] _ rfl
    simp [received, Received.bytes] at hhead
  · rintro ⟨fuel, actions, h⟩
    have hcoded : codedSize 65 = some 512 := rfl
    rw [closed_early_never_ends rfl hcoded (by decide) rfl fuel] at h
    cases h

/-! ## The client -/

/-- Each block of the client has as many bytes as its first one stands for. -/
theorem sendData_coded {data_size : Int32} (h : data_size ∈ dataSizes) :
    ∃ s b, sendData data_size = .ok s ∧ s.head? = some b ∧ codedSize b = some s.length := by
  have hsizes : 0 < data_size.toInt ∧ data_size.toInt ≤ bufferSize ∧
      codedSize (sizeCode data_size) = some data_size.toInt.toNat := by
    simp only [dataSizes, List.mem_cons, List.not_mem_nil, or_false] at h
    rcases h with rfl | rfl | rfl | rfl
    · exact ⟨by decide, by decide, rfl⟩
    · exact ⟨by decide, by decide, rfl⟩
    · exact ⟨by decide, by decide, rfl⟩
    · exact ⟨by decide, by decide, rfl⟩
  obtain ⟨hpos, hfits, hcoded⟩ := hsizes
  refine ⟨_, sizeCode data_size, if_pos ⟨Int.le_of_lt hpos, hfits⟩, ?_, by simpa using hcoded⟩
  rw [List.head?_map, List.head?_range, if_neg (by omega)]
  rfl

/-- However the client's block is cut on its way, the server acknowledges it when it has all of it. -/
theorem client_acknowledged {data_size : Int32} {s : Bytes} (h : data_size ∈ dataSizes)
    (hs : sendData data_size = .ok s) (hdata : c.data = s) :
    Ends c ∧ ∀ fuel before after, serve c fuel = .ok (some (before ++ .send ack :: after)) →
      received before = s := by
  obtain ⟨t, b, ht, hhead, hcoded⟩ := sendData_coded h
  obtain rfl : s = t := Except.ok.inj (hs.symm.trans ht)
  subst hdata
  refine ⟨ends_of_complete hhead hcoded (Nat.le_refl _), fun fuel before after hserve => ?_⟩
  obtain ⟨hsize, hprefix⟩ := size_le_received hhead hcoded (Nat.le_refl _) hserve
  exact hprefix.eq_of_length_le hsize

end RoundTrip

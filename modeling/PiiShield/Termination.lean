import PiiShield.LineLedger
import PiiShield.RunLog

/-! Every scan ends. The rank of a frame bounds how deep its calls nest, so the fuel of
`scanAndRedact` is never used up, and the loops inside the frames move on. -/

namespace PiiShield

open ConfigState

variable {Num : Type}

theorem rank_scanLine_lt (line : Bytes) : (Frame.scanLine line 0).rank < scanFuel line := by
  have h : asciiCount line ≤ line.length := List.countP_le_length
  simp only [Frame.rank, Frame.weight, Frame.ascii, Frame.arg, Frame.depth, Frame.layer, scanFuel,
    maxTokenRecursionDepth]
  omega

theorem within_scanLine (line : Bytes) : (Frame.scanLine line 0).Within := Nat.zero_le _

theorem calls_of_mem_log {st : ConfigState Num} {n : Nat} {line : Bytes} {b : BaselineStats Num}
    {g h : Frame} {c : Bool} (he : Event.call g h c ∈ (st.machine.run n (.scanLine line 0) b).log) :
    Calls st g h ∧ g.Within ∧ h.Within :=
  (keeps_ledger st).run_calls (fun _ _ hf hc => hc.within hf) n (within_scanLine line) b he

theorem run_scanLine_fuel (st : ConfigState Num) (b : BaselineStats Num) (line : Bytes) {n : Nat}
    (hn : scanFuel line ≤ n) : (st.machine.run n (.scanLine line 0) b).res ≠ .error .outOfFuel :=
  (keeps_ledger st).run_fuel (fun _ _ hf hc => hc.within hf) (fun _ _ hf hc => hc.rank_lt hf) n
    (within_scanLine line) (Nat.lt_of_lt_of_le (rank_scanLine_lt line) hn) b

theorem scanAndRedact_fuel (st : ConfigState Num) (b : BaselineStats Num) (line : Bytes) :
    (st.scanAndRedact b line).res ≠ .error .outOfFuel := run_scanLine_fuel st b line le_rfl

theorem depth_le_of_within {f : Frame} (h : f.Within) : f.depth ≤ maxTokenRecursionDepth + 1 := by
  cases f with
  | processEqualPair | processColonPair | maskURLParameters => exact Nat.le_succ_of_le h
  | _ => exact h

/-- Every scan ends: no call nests deeper than the fuel, the depth never decreases along a
call and stays within its limit, a chain of nested calls is bounded by the length of the
line times the depth limit, and each iteration of the loops moves on. -/
theorem scan_terminates (st : ConfigState Num) (b : BaselineStats Num) (line : Bytes) :
    (st.scanAndRedact b line).res ≠ .error .outOfFuel ∧
      (∀ n, scanFuel line ≤ n → st.machine.run n (.scanLine line 0) b = st.scanAndRedact b line) ∧
      (∀ g h c, Event.call g h c ∈ (st.scanAndRedact b line).log →
        g.depth ≤ h.depth ∧ h.depth ≤ maxTokenRecursionDepth + 1) ∧
      (∀ l : List Frame,
        (Frame.scanLine line 0 :: l).IsChain
          (fun g h => ∃ c, Event.call g h c ∈ (st.scanAndRedact b line).log) →
        l.length ≤ (maxTokenRecursionDepth + 3) * (8 * (line.length + 1))) ∧
      (∀ c : Cursor, c.rest ≠ [] → 1 ≤ c.step.width) ∧
      (∀ (seg : Bytes) (q : Bool) (r n : Nat), seg.length ≤ n →
        segmentPieces n ⟨[], seg, q, r, false⟩ = segmentPieces seg.length ⟨[], seg, q, r, false⟩) ∧
      (∀ (ua : Bytes) (n : Nat), ua.length ≤ n → agentPiecesFrom n [] 0 ua = agentPieces ua) ∧
      (∀ (url : Bytes) (i n : Nat), url.length ≤ n → lastAt url n i = lastAt url url.length i) ∧
      ((st.carves line).Pairwise fun a b => a.start < b.start) := by
  refine ⟨scanAndRedact_fuel st b line, fun n hn => Machine.run_mono hn (scanAndRedact_fuel st b line),
    fun g h c he => ?_, fun l hl => ?_, fun c hc => width_step_pos hc,
    fun seg q r n hn => segmentPieces_fuel hn le_rfl, fun ua n hn => agentPiecesFrom_fuel _ _ hn le_rfl,
    fun url i n hn => lastAt_fuel (by omega) (by omega), ?_⟩
  · obtain ⟨hc, hg, hh⟩ := calls_of_mem_log he
    exact ⟨hc.depth_le hg, depth_le_of_within hh⟩
  · refine Nat.le_of_lt (Nat.lt_of_le_of_lt ?_ (rank_scanLine_lt line))
    refine length_le_rank_of_isChain (fun g h hgh => ?_) _ l hl
    obtain ⟨c, he⟩ := hgh
    obtain ⟨hc, hg, -⟩ := calls_of_mem_log he
    exact hc.rank_lt hg
  obtain ⟨hsort, hnum⟩ := carves_spec st line
  refine hsort.imp_of_mem fun {a b} ha _ hab => ?_
  exact Nat.lt_of_lt_of_le (hnum a ha).stops.lt hab

end PiiShield

import PiiShield.Bytes

/-! The records of the probe: what the kernel side writes for a `writev` is what the agent parses. -/

namespace PiiShield.Ebpf

def headerSize : Nat := 16
def maxData : Nat := 8192
def maxIOV : Nat := 8
def flagTruncated : UInt32 := 1
def flagIOVCut : UInt32 := 2

structure Event where
  tgid : UInt32
  fd : UInt32
  flags : UInt32
  data : Bytes

def Event.truncated (e : Event) : Bool := e.flags &&& (flagTruncated ||| flagIOVCut) != 0

inductive ParseProblem
  | short (size : Nat)
  | claims (n : UInt32) (has : Nat)

def uint32 (b : Bytes) : UInt32 := .ofNat (b.foldr (fun c n => c.toNat + 256 * n) 0)

def parseEvent (r : Bytes) : Except ParseProblem Event :=
  if r.length < headerSize then .error (.short r.length)
  else
    let n := uint32 (slice r 8 12)
    if r.length - headerSize < n.toNat then .error (.claims n (r.length - headerSize))
    else .ok ⟨uint32 (slice r 0 4), uint32 (slice r 4 8), uint32 (slice r 12 16),
      slice r headerSize (headerSize + n.toNat)⟩

def putUint32 (x : UInt32) : Bytes :=
  [.ofNat x.toNat, .ofNat (x.toNat / 256), .ofNat (x.toNat / 65536), .ofNat (x.toNat / 16777216)]

def emitFlags (buf : Bytes) (flags : UInt32) : UInt32 :=
  if maxData < buf.length then flags ||| flagTruncated else flags

/-- The record of `emit` for a buffer that can be read, where the ring buffer has room. -/
def emit (tgid fd : UInt32) (buf : Bytes) (flags : UInt32) : Bytes :=
  putUint32 tgid ++ putUint32 fd ++ putUint32 (.ofNat (buf.take maxData).length) ++
    putUint32 (emitFlags buf flags) ++ buf.take maxData

def iovFlags (iovcnt i : Nat) : UInt32 := if i = maxIOV - 1 ∧ maxIOV < iovcnt then flagIOVCut else 0

def writev (tgid fd : UInt32) (iov : List Bytes) : List Bytes :=
  (iov.take maxIOV).zipIdx.map fun p => emit tgid fd p.1 (iovFlags iov.length p.2)

theorem uint32_putUint32 (x : UInt32) : uint32 (putUint32 x) = x := by
  have hx := x.toNat_lt
  apply UInt32.toNat_inj.mp
  simp only [uint32, putUint32, List.foldr_cons, List.foldr_nil, UInt32.toNat_ofNat', UInt8.toNat_ofNat']
  omega

theorem parseEvent_record (tgid fd flags : UInt32) {data : Bytes} (h : data.length ≤ maxData) :
    parseEvent (putUint32 tgid ++ putUint32 fd ++ putUint32 (.ofNat data.length) ++ putUint32 flags ++ data) =
      .ok ⟨tgid, fd, flags, data⟩ := by
  have hn : (uint32 (putUint32 (.ofNat data.length))).toNat = data.length := by
    rw [uint32_putUint32, UInt32.toNat_ofNat', Nat.mod_eq_of_lt (lt_of_le_of_lt h (by decide))]
  generalize hr : putUint32 tgid ++ putUint32 fd ++ putUint32 (.ofNat data.length) ++ putUint32 flags ++ data = r
  have htgid : slice r 0 4 = putUint32 tgid := by subst hr; rfl
  have hfd : slice r 4 8 = putUint32 fd := by subst hr; rfl
  have hclaim : slice r 8 12 = putUint32 (.ofNat data.length) := by subst hr; rfl
  have hflags : slice r 12 16 = putUint32 flags := by subst hr; rfl
  have hlen : r.length = 16 + data.length := by
    subst hr
    simp [putUint32]
    omega
  have hdata : slice r 16 (16 + data.length) = data := by
    rw [slice, ← hlen, List.take_length]
    subst hr
    rfl
  simp only [parseEvent, headerSize, htgid, hfd, hclaim, hflags, hn, hlen, hdata]
  rw [if_neg (by omega), if_neg (by omega), uint32_putUint32, uint32_putUint32, uint32_putUint32]

theorem parseEvent_emit (tgid fd flags : UInt32) (buf : Bytes) :
    parseEvent (emit tgid fd buf flags) = .ok ⟨tgid, fd, emitFlags buf flags, buf.take maxData⟩ :=
  parseEvent_record _ _ _ (List.length_take_le _ _)

theorem truncated_iff {tgid fd : UInt32} {buf data : Bytes} {n i : Nat} :
    (Event.mk tgid fd (emitFlags buf (iovFlags n i)) data).truncated = false ↔
      ¬ (i = maxIOV - 1 ∧ maxIOV < n) ∧ buf.length ≤ maxData := by
  simp only [Event.truncated, emitFlags, iovFlags, ← Nat.not_lt]
  by_cases hcut : i = maxIOV - 1 ∧ maxIOV < n <;> by_cases hlong : maxData < buf.length <;>
    simp only [hcut, hlong, if_true, if_false, not_true, not_false_iff, and_self, and_true, and_false] <;> decide

/-- Every record of a `writev` parses to its process, descriptor and bytes, and none is flagged just
when nothing was cut. -/
theorem writev_parsed (tgid fd : UInt32) (iov : List Bytes) :
    ∃ events : List Event, (writev tgid fd iov).map parseEvent = events.map .ok ∧
      (∀ e ∈ events, e.tgid = tgid ∧ e.fd = fd) ∧
      events.map (·.data) = (iov.take maxIOV).map (·.take maxData) ∧
      ((∀ e ∈ events, e.truncated = false) ↔ iov.length ≤ maxIOV ∧ ∀ v ∈ iov, v.length ≤ maxData) := by
  refine ⟨(iov.take maxIOV).zipIdx.map fun p =>
    ⟨tgid, fd, emitFlags p.1 (iovFlags iov.length p.2), p.1.take maxData⟩, ?_, ?_, ?_, ?_⟩
  · simp [writev, parseEvent_emit]
  · intro e he
    obtain ⟨p, -, rfl⟩ := List.mem_map.mp he
    exact ⟨rfl, rfl⟩
  · have hdata := List.zipIdx_map_fst 0 (iov.take maxIOV)
    rw [List.map_map]
    nth_rewrite 2 [← hdata]
    rw [List.map_map]
    rfl
  simp only [List.forall_mem_map, truncated_iff, List.mem_zipIdx_iff_getElem?, Prod.forall]
  constructor
  · intro h
    have hle : iov.length ≤ maxIOV := by
      by_contra hlt
      have hlast : maxIOV - 1 < (iov.take maxIOV).length := by
        rw [List.length_take]
        simp only [maxIOV] at hlt ⊢
        omega
      exact (h _ _ (List.getElem?_eq_getElem hlast)).1 ⟨rfl, Nat.not_le.mp hlt⟩
    rw [List.take_of_length_le hle] at h
    refine ⟨hle, fun v hv => ?_⟩
    obtain ⟨i, hi⟩ := List.mem_iff_getElem?.mp hv
    exact (h v i hi).2
  rintro ⟨hle, hshort⟩ v i hi
  exact ⟨fun h => absurd h.2 (Nat.not_lt.mpr hle), hshort v (List.mem_of_mem_take (List.mem_of_getElem? hi))⟩

end PiiShield.Ebpf

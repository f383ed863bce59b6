import PiiShield.Unicode

/-! The automaton that finds a sensitive-key entry inside a key in one pass. -/

namespace PiiShield

/-- The compiled table: a byte's column, the transition table by row offset, the
states where an entry ends, and whether an entry is empty. -/
structure KeyMatcher where
  classOf : UInt8 → UInt8
  next : List Int
  hit : List Bool
  always : Bool

namespace KeyMatcher

def step (m : KeyMatcher) (s : Nat) (b : UInt8) : Nat :=
  (m.next.getD (s + (m.classOf b).toNat) 0).toNat

def walk (m : KeyMatcher) : Nat → Bytes → Bool
  | _, [] => false
  | s, b :: t => m.hit.getD (m.step s b) false || m.walk (m.step s b) t

/-- The loop of `find`: `lowered` is the lower-cased key, made only for a key with a
byte outside ASCII. -/
def findFrom (m : KeyMatcher) (lowered : Bytes) : Nat → Bytes → Bool × Bytes
  | _, [] => (false, [])
  | s, b :: t =>
    if !isASCII b then (m.walk 0 lowered, lowered)
    else if m.hit.getD (m.step s (lowerASCIIByte b)) false then (true, [])
    else m.findFrom lowered (m.step s (lowerASCIIByte b)) t

def find (m : KeyMatcher) (U : Unicode) (key : Bytes) : Bool × Bytes :=
  if m.always then (true, []) else m.findFrom (U.toLowerString key) 0 key

end KeyMatcher

def hasASCIIUpper (s : Bytes) : Bool := s.any isUpperASCII

structure KeyTable where
  next : List Int
  hit : List Bool

namespace KeyTable

variable (n : Nat) (classOf : UInt8 → UInt8)

def newState (t : KeyTable) : KeyTable :=
  ⟨t.next ++ List.replicate n (-1), t.hit ++ List.replicate n false⟩

def insert : KeyTable → Nat → Bytes → KeyTable
  | t, s, [] => { t with hit := t.hit.set s true }
  | t, s, b :: p =>
    let c := s + (classOf b).toNat
    if t.next.getD c 0 < 0 then
      insert { newState n t with next := (newState n t).next.set c t.next.length } t.next.length p
    else insert t (t.next.getD c 0).toNat p

def closeRoot (t : KeyTable) : List Nat → KeyTable × List (Nat × Nat)
  | [] => (t, [])
  | c :: cs =>
    if t.next.getD c 0 < 0 then closeRoot { t with next := t.next.set c 0 } cs
    else
      let r := closeRoot t cs
      (r.1, ((t.next.getD c 0).toNat, 0) :: r.2)

def closeRow (s f : Nat) (t : KeyTable) : List Nat → KeyTable × List (Nat × Nat)
  | [] => (t, [])
  | c :: cs =>
    let target := t.next.getD (f + c) 0
    if t.next.getD (s + c) 0 < 0 then
      closeRow s f { t with next := t.next.set (s + c) target } cs
    else
      let r := closeRow s f t cs
      (r.1, ((t.next.getD (s + c) 0).toNat, target.toNat) :: r.2)

def close : Nat → KeyTable → List (Nat × Nat) → KeyTable
  | 0, t, _ => t
  | _, t, [] => t
  | fuel + 1, t, (s, f) :: queue =>
    let t := { t with hit := t.hit.set s (t.hit.getD s false || t.hit.getD f false) }
    let r := closeRow s f t (List.range n)
    close fuel r.1 (queue ++ r.2)

end KeyTable

def keyClasses (pats : List Bytes) : Bytes :=
  pats.flatten.foldl (fun cs b => if cs.contains b then cs else cs ++ [b]) []

def newKeyMatcher (keys : List Bytes) : KeyMatcher :=
  let pats := keys.filter fun k => !hasASCIIUpper k && !k.isEmpty
  let classes := keyClasses pats
  let classOf (b : UInt8) : UInt8 :=
    if classes.contains b then .ofNat (classes.idxOf b + 1) else 0
  let n := classes.length + 1
  let trie := pats.foldl (fun t p => KeyTable.insert n classOf t 0 p) (KeyTable.newState n ⟨[], []⟩)
  let root := KeyTable.closeRoot trie (List.range n)
  let table := KeyTable.close n trie.next.length root.1 root.2
  ⟨classOf, table.next, table.hit, keys.any (·.isEmpty)⟩

def containsFoldPW : Bytes → Bool
  | a :: b :: t => (a ||| 0x20) == 'p' && (b ||| 0x20) == 'w' || containsFoldPW (b :: t)
  | _ => false

end PiiShield

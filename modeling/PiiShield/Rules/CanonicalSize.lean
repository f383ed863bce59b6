import PiiShield.JsonRoundTrip
import PiiShield.Operator.Validation
import PiiShield.Rules.Canonical

/-! How long a canonical file is. The limit is checked on what was submitted, and what clusters
download is written anew with a revision. -/

namespace PiiShield.Rules

open Operator

variable {Num : Type} {P : Platform Num} {S : Sidecar P}

variable {content : Bytes} {raw : List (Text × Json)}

variable (members : List (Text × Json))

def canonicalMembers (revision : Int64) : List (Text × Json) :=
  Assoc.insert revisionKey (.str (revisionText revision))
    (((rawMap members).filter fun m => m.1.bytes != bs "salt").filter fun m => m.1.bytes != bs "fail_policy")

def NoSettings : Prop :=
  ∀ m ∈ rawMap members, m.1.bytes = bs "salt" ∨ m.1.bytes = bs "fail_policy" → isUnset m.2 = true

theorem removeSetting_eq_ok_iff {key : Bytes} {out : List (Text × Json)} : removeSetting key raw = .ok out ↔
      (∀ m ∈ raw, m.1.bytes = key → isUnset m.2 = true) ∧ out = raw.filter fun m => m.1.bytes != key := by
  have hany : (raw.any fun m => m.1.bytes == key && !isUnset m.2) = false ↔
      ∀ m ∈ raw, m.1.bytes = key → isUnset m.2 = true := by
    simp
  rw [removeSetting, ← hany]
  grind

theorem bind_eq_ok_iff {ε α β : Type} {x : Except ε α} {f : α → Except ε β} {b : β} :
    (x >>= f) = .ok b ↔ ∃ a, x = .ok a ∧ f a = .ok b := by
  cases x with
  | error e | ok a => simp [bind, Except.bind]

theorem mapError_eq_ok_iff {ε ε' α : Type} {x : Except ε α} {f : ε → ε'} {a : α} :
    x.mapError f = .ok a ↔ x = .ok a := by
  cases x <;> simp [Except.mapError]

theorem writeCanonical_eq_ok_iff {n : Int64} {file : CanonicalFile Num} : writeCanonical S raw n = .ok file ↔
      ∃ raw1, removeSetting (bs "salt") raw = .ok raw1 ∧ ∃ raw2, removeSetting (bs "fail_policy") raw1 = .ok raw2 ∧
        file.content = (Json.obj (Assoc.insert revisionKey (.str (revisionText n)) raw2)).marshal ∧
        file.eTag = eTag P file.content ∧
        ∃ revision, parsePolicyJSON S file.content = .ok (file.config, revision) := by
  rw [writeCanonical, bind_eq_ok_iff]
  refine exists_congr fun raw1 => and_congr_right fun _ => ?_
  rw [bind_eq_ok_iff]
  refine exists_congr fun raw2 => and_congr_right fun _ => ?_
  rw [bind_eq_ok_iff]
  simp only [mapError_eq_ok_iff]
  constructor
  · rintro ⟨parsed, hparsed, hfile⟩
    cases hfile
    exact ⟨rfl, rfl, parsed.2, hparsed⟩
  rintro ⟨hcontent, htag, revision, hparsed⟩
  obtain ⟨content, tag, config⟩ := file
  dsimp only at hcontent htag hparsed
  subst hcontent
  subst htag
  exact ⟨_, hparsed, rfl⟩

theorem decodeMap_eq_some_iff {rest : Bytes} : decodeMap content = some (some raw, rest) ↔
      ∃ members, readValue maxNestingDepth content = some (.obj members, rest) ∧ raw = rawMap members := by
  rw [decodeMap]
  grind

theorem canonical_eq_ok_iff {n : Int64} {file : CanonicalFile Num} : canonical S content n = .ok file ↔
      content.length ≤ maxBytes ∧ ∃ members rest, readValue maxNestingDepth content = some (.obj members, rest) ∧
        hasMore rest = false ∧ NoSettings members ∧
        file.content = (Json.obj (canonicalMembers members n)).marshal ∧ file.eTag = eTag P file.content ∧
        ∃ revision, parsePolicyJSON S file.content = .ok (file.config, revision) := by
  have hwrite (members : List (Text × Json)) :
      writeCanonical S (rawMap members) n = .ok file ↔ NoSettings members ∧
        file.content = (Json.obj (canonicalMembers members n)).marshal ∧ file.eTag = eTag P file.content ∧
        ∃ revision, parsePolicyJSON S file.content = .ok (file.config, revision) := by
    rw [writeCanonical_eq_ok_iff]
    simp only [removeSetting_eq_ok_iff]
    constructor
    · rintro ⟨raw1, ⟨hsalt, rfl⟩, raw2, ⟨hfail, rfl⟩, hfile⟩
      refine ⟨fun m hm hkey => ?_, hfile⟩
      grind
    rintro ⟨hnone, hfile⟩
    exact ⟨_, ⟨fun m hm hkey => hnone m hm (.inl hkey), rfl⟩, _,
      ⟨fun m hm hkey => hnone m (List.mem_filter.mp hm).1 (.inr hkey), rfl⟩, hfile⟩
  have hdecoded : canonical S content n = .ok file ↔ content.length ≤ maxBytes ∧
      ∃ raw rest, decodeMap content = some (some raw, rest) ∧ hasMore rest = false ∧
        writeCanonical S raw n = .ok file := by
    rw [canonical, ← Nat.not_lt]
    by_cases hlen : maxBytes < content.length
    · simp [hlen]
    rw [if_neg hlen]
    cases decodeMap content with
    | none => simp
    | some decoded =>
      grind
  simp only [hdecoded, decodeMap_eq_some_iff]
  grind

def isReplaced (key : Bytes) : Bool := key == bs "salt" || key == bs "fail_policy" || key == bs "revision"

def fileCost (revision : Int64) : Nat :=
  listCost ((textCost (bs "revision") + 1 + textCost (formatInt revision)) ::
    ((Assoc.lasts members).filter fun m => !isReplaced m.1.bytes).map fun m => textCost m.1.bytes + 1 + m.2.cost)

theorem length_marshal_obj : (Json.obj members).marshal.length =
      listCost (members.map fun m => textCost m.1.bytes + 1 + m.2.marshal.length) := by
  rw [Json.marshal_obj, length_enclose, List.map_map]
  refine congrArg listCost (List.map_congr_left fun m _ => ?_)
  rw [Function.comp_apply, List.length_append, length_quoteHTML m.1.valid, List.length_cons]
  omega

theorem canonicalMembers_perm (n : Int64) :
    (canonicalMembers members n).Perm ((revisionKey, .str (revisionText n)) ::
      ((Assoc.lasts members).filter fun m => !isReplaced m.1.bytes).map fun m => (m.1, m.2.generic)) := by
  have hsorted := Assoc.sorted_ofMembers (members.map fun m => (m.1, m.2.generic))
  have hraw := Assoc.ofMembers_perm_lasts (members.map fun m => (m.1, m.2.generic))
  rw [Assoc.lasts_map] at hraw
  refine (Assoc.insert_perm ((hsorted.filter _).filter _) _ _).trans (List.Perm.cons _ ?_)
  rw [List.filter_filter, List.filter_filter]
  refine (hraw.filter _).trans (List.Perm.of_eq ?_)
  rw [List.filter_map]
  refine congrArg _ (List.filter_congr fun m _ => ?_)
  have hkey : decide (m.1 = revisionKey) = (m.1.bytes == bs "revision") := by
    rw [Bool.eq_iff_iff, decide_eq_true_iff, beq_iff_eq, Text.ext_iff]
    rfl
  simp only [Function.comp_apply, isReplaced, Bool.not_or, bne, decide_not, hkey]
  cases m.1.bytes == bs "salt" <;> cases m.1.bytes == bs "fail_policy" <;> simp

theorem length_canonical (n : Int64) :
    (Json.obj (canonicalMembers members n)).marshal.length = fileCost members n := by
  rw [length_marshal_obj, listCost_perm ((canonicalMembers_perm members n).map _), fileCost, List.map_cons,
    List.map_map]
  refine congrArg listCost (congrArg₂ List.cons ?_ (List.map_congr_left fun m _ => ?_))
  · have hrevision : (Json.str (revisionText n)).marshal.length = textCost (formatInt n) :=
      length_quoteHTML (revisionText n).valid
    rw [hrevision]
    rfl
  simp [Json.length_marshal_generic]

def contentCost (content : Bytes) (revision : Int64) : Nat :=
  match readValue maxNestingDepth content with
  | some (.obj members, _) => fileCost members revision
  | _ => 0

theorem fetch_tooLarge {server : Source → Operator.Answer} {src : Source} {url : Bytes}
    (h : fetch P server src = .error (.tooLarge url)) :
    ∃ body etag, server src = .response 200 (some body) etag ∧ Operator.maxBytes < body.length := by
  have hurl : checkURL P src.url src.allowInsecure ≠ .error (.tooLarge url) := by grind [checkURL]
  simp only [fetch, bind, Except.bind] at h
  grind

/-- A canonical file fits a cluster exactly if the rule set it was made of does when it is written
with its escapes and its revision. -/
theorem canonical_fits_iff {content : Bytes} {n : Int64} {file : CanonicalFile Num}
    (h : canonical S content n = .ok file) :
    (file.content.length ≤ Operator.maxBytes ↔ contentCost content n ≤ Operator.maxBytes) ∧
      ∀ server src url etag, server src = .response 200 (some file.content) etag →
        contentCost content n ≤ Operator.maxBytes → fetch P server src ≠ .error (.tooLarge url) := by
  have hlen : file.content.length = contentCost content n := by
    obtain ⟨-, members, rest, hread, -, -, hcontent, -⟩ := canonical_eq_ok_iff.mp h
    rw [hcontent, length_canonical, contentCost, hread]
  refine ⟨by rw [hlen], ?_⟩
  intro server src url etag hserver hcost hfetch
  obtain ⟨body, etag', hserver', hlarge⟩ := fetch_tooLarge hfetch
  cases hserver.symm.trans hserver'
  omega

/-- A platform that reads policy files as they are written; no number is looked at. -/
def jsonPlatform : Platform Unit := { samplePlatform [] with
  decodeFile := unmarshalPolicy (fun _ => some ()) ()
  decodeFile_nil := rfl }

def cardRules : Bytes := bs "\x7b\"sensitive_keys\":[\"card\"]\x7d"

theorem canonical_fits_card :
    ∃ file, canonical (sampleSidecar jsonPlatform) cardRules 1 = .ok file ∧
      file.content.length ≤ Operator.maxBytes := by
  have hok : (canonical (sampleSidecar jsonPlatform) cardRules 1).isOk = true := by decide +kernel
  obtain ⟨file, hfile⟩ := isOk_iff.mp hok
  exact ⟨file, hfile, (canonical_fits_iff hfile).1.mpr (by decide +kernel)⟩

variable (n : Nat)

def longText : Text := ⟨List.replicate n 'a', utf8Valid_ascii (by simp [isASCII])⟩

def unknownKey : Text := ⟨bs "x", by rfl⟩

/-- A rule set of one unknown key with a string of some length. -/
def longRules : Bytes := bs "\x7b\"x\":\"" ++ List.replicate n (chr 'a') ++ bs "\"\x7d"

theorem runesFrom_replicate : runesFrom 0 (List.replicate n (chr 'a')) = List.replicate n (0x61, 1) := by
  induction n with
  | zero => rfl
  | succ n ih =>
    have hone : Encodes [chr 'a'] 0x61 := encodes_one (by decide)
    have happend := hone.runesFrom_append (List.replicate n (chr 'a'))
    simp_all [List.replicate_succ]

theorem quoteHTML_longText :
    quoteHTML (longText n).bytes = dquote :: List.replicate n (chr 'a') ++ [dquote] := by
  have hquote (n : Nat) : (List.replicate n (0x61, 1)).flatMap quoteRuneHTML = List.replicate n (chr 'a') := by
    induction n with
    | zero => rfl
    | succ n ih =>
      rw [List.replicate_succ, List.flatMap_cons, ih, List.replicate_succ]
      rfl
  grind [longText, runesFrom_replicate, quoteHTML]

theorem longRules_eq : longRules n = (Json.obj [(unknownKey, .str (longText n))]).marshal := by
  have htext : (Json.str (longText n)).marshal = quoteHTML (longText n).bytes := rfl
  have hkey : quoteHTML unknownKey.bytes = bs "\"x\"" := by rfl
  have hopening : bs "\x7b\"x\":\"" = chr '\x7b' :: (bs "\"x\"" ++ [chr ':', dquote]) := by rfl
  have hclosing : bs "\"\x7d" = [dquote, chr '\x7d'] := by rfl
  simp_all [Json.marshal_obj, enclose, quoteHTML_longText, longRules]

theorem length_longRules : (longRules n).length = n + 8 := by
  have hopening : (bs "\x7b\"x\":\"").length = 6 := by rfl
  have hclosing : (bs "\"\x7d").length = 2 := by rfl
  grind [longRules]

theorem fileCost_longText : fileCost [(unknownKey, .str (longText n))] 1 = n + 23 := by
  have hkept : (!isReplaced unknownKey.bytes) = true := by rfl
  have hkeys : textCost unknownKey.bytes = 3 ∧ textCost (bs "revision") = 10 ∧ textCost (formatInt 1) = 3 := by
    decide
  have htext : (Json.str (longText n)).cost = n + 2 := by
    show textCost (longText n).bytes = n + 2
    simp [← length_quoteHTML (longText n).valid, quoteHTML_longText]
  have hlasts : Assoc.lasts [(unknownKey, Json.str (longText n))] = [(unknownKey, Json.str (longText n))] := rfl
  rw [fileCost, hlasts, List.filter_singleton, hkept, cond_true, List.map_singleton, htext, hkeys.1, hkeys.2.1,
    hkeys.2.2, listCost]
  simp only [List.sum_cons, List.sum_nil, List.length_cons, List.length_nil]
  omega

theorem unknown_members (t : Text) (n : Int64) : canonicalMembers [(unknownKey, .str t)] n =
    [(revisionKey, .str (revisionText n)), (unknownKey, .str t)] := by
  have hsalt : (unknownKey.bytes != bs "salt") = true := by rfl
  have hfail : (unknownKey.bytes != bs "fail_policy") = true := by rfl
  have hne : revisionKey ≠ unknownKey := by decide
  have hlt : revisionKey < unknownKey := by decide
  have hraw : rawMap [(unknownKey, .str t)] = [(unknownKey, .str t)] := rfl
  simp [canonicalMembers, hraw, hsalt, hfail, Assoc.insert, if_neg hne, if_pos hlt]

theorem depth_of_flat {members : List (Text × Json)} (h : ∀ m ∈ members, m.2.depth = 0) :
    (Json.obj members).depth ≤ maxNestingDepth := by
  have hle : (Json.obj members).depth ≤ 0 + 1 := Json.depth_obj_le.mpr fun m hm => (h m hm).le
  exact hle.trans (by decide)

theorem unknown_parsed (t : Text) : (parsePolicyJSON (sampleSidecar jsonPlatform)
      (Json.obj [(revisionKey, .str (revisionText 1)), (unknownKey, .str t)]).marshal).isOk = true := by
  have hdepth : (Json.obj [(revisionKey, .str (revisionText 1)), (unknownKey, .str t)]).depth ≤ maxNestingDepth := by
    refine depth_of_flat fun m hm => ?_
    rcases List.mem_cons.mp hm with rfl | hm
    · rfl
    rw [List.mem_singleton.mp hm]
    rfl
  have hrevision : (policyStruct fun _ => some ()).set (zeroFields ()) (revisionKey, .str (revisionText 1)) =
      some (Function.update (zeroFields ()) .revision (formatInt 1)) := by
    have hfield : (policyStruct fun _ => some ()).fieldOf revisionKey.bytes = some .revision := by rfl
    exact (Struct.set_of_field (m := (revisionKey, .str (revisionText 1))) hfield _).trans rfl
  have hunknown (r : (i : PolicyField) → i.Value Unit) :
      (policyStruct fun _ => some ()).set r (unknownKey, .str t) = some r := by
    have hfield : (policyStruct fun _ => some ()).fieldOf unknownKey.bytes = none := by rfl
    exact Struct.set_of_unknown (m := (unknownKey, .str t)) hfield r
  have hread : (policyStruct fun _ => some ()).read (zeroFields ())
      (.obj [(revisionKey, .str (revisionText 1)), (unknownKey, .str t)]) =
        some (Function.update (zeroFields ()) .revision (formatInt 1)) := by
    simp [Struct.read, hrevision, hunknown]
  have hfile : jsonPlatform.decodeFile
      (Json.obj [(revisionKey, .str (revisionText 1)), (unknownKey, .str t)]).marshal =
        some (remoteFile (Function.update (zeroFields ()) .revision (formatInt 1))) := by
    show unmarshalPolicy _ _ _ = _
    simp [unmarshalPolicy, readDocument_marshal hdepth, hread]
  have hconfig : (policyConfig (sampleSidecar jsonPlatform)
      (remoteFile (Function.update (zeroFields ()) .revision (formatInt 1))).document).isOk = true := by
    rfl
  obtain ⟨config, hconfig⟩ := isOk_iff.mp hconfig
  rw [parsePolicyJSON, hfile]
  dsimp only
  rw [hconfig]
  rfl

theorem unknown_canonical {t : Text} (hcontent : content = (Json.obj [(unknownKey, .str t)]).marshal)
    (hlength : content.length ≤ maxBytes) :
    ∃ file, canonical (sampleSidecar jsonPlatform) content 1 = .ok file ∧
      file.content.length = fileCost [(unknownKey, .str t)] 1 := by
  have hread : readValue maxNestingDepth content = some (.obj [(unknownKey, .str t)], []) := by
    have hend : firstIs [] isNumberByte = false := rfl
    have hdepth : (Json.obj [(unknownKey, .str t)]).depth ≤ maxNestingDepth := by
      refine depth_of_flat fun m hm => ?_
      rw [List.mem_singleton.mp hm]
      rfl
    have h := readValue_marshal _ hdepth hend
    rwa [List.append_nil, ← hcontent] at h
  have hsettings : NoSettings [(unknownKey, .str t)] := by
    have hkey : ¬ (unknownKey.bytes = bs "salt" ∨ unknownKey.bytes = bs "fail_policy") := by decide
    intro m hm hm'
    rw [List.mem_singleton.mp hm] at hm'
    exact absurd hm' hkey
  obtain ⟨⟨config, revision⟩, hparsed⟩ := isOk_iff.mp (unknown_parsed t)
  let out := (Json.obj (canonicalMembers [(unknownKey, .str t)] 1)).marshal
  refine ⟨⟨out, eTag jsonPlatform out, config⟩, canonical_eq_ok_iff.mpr
    ⟨hlength, _, [], hread, rfl, hsettings, rfl, rfl, revision, ?_⟩, length_canonical _ _⟩
  dsimp only [out]
  rw [unknown_members]
  exact hparsed

/-- A rule set at the limit outgrows it by its revision. -/
theorem canonical_too_long :
    ∃ file, canonical (sampleSidecar jsonPlatform) (longRules 262136) 1 = .ok file ∧
      Operator.maxBytes < file.content.length := by
  have hlength : (longRules 262136).length ≤ maxBytes := by
    rw [length_longRules]
    decide
  obtain ⟨file, hfile, hlong⟩ := unknown_canonical (longRules_eq 262136) hlength
  refine ⟨file, hfile, ?_⟩
  rw [hlong, fileCost_longText]
  decide

end PiiShield.Rules

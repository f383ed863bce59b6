import PiiShield.Scanner
import PiiShield.StateAccess

/-! The frames of the scanner touch the adaptive baseline only where a single token or a bytes
literal is judged. -/

namespace PiiShield

variable {Num : Type}

namespace ConfigState

inductive TokenStep (st : ConfigState Num) : Scan Num Unit → Prop
  | single (content original : Bytes) (forced context autoQuote : Bool) :
      TokenStep st (st.processSingleToken content original forced context autoQuote)
  | blob (content : Bytes) (context : Bool) : TokenStep st (st.processBinaryBlob content context)

variable {st : ConfigState Num}

theorem built_processSingleToken (content original : Bytes) (forced context autoQuote : Bool) :
    (st.processSingleToken content original forced context autoQuote).BuiltOf st.TokenStep :=
  .single (.single content original forced context autoQuote)

theorem built_processBinaryBlob (content : Bytes) (context : Bool) :
    (st.processBinaryBlob content context).BuiltOf st.TokenStep :=
  .single (.blob content context)

theorem built_writeKeyHalf (key : Bytes) : (st.writeKeyHalf key).BuiltOf st.TokenStep :=
  .ite (.write _) (built_processSingleToken ..)

theorem built_writeURLSegment (seg : Bytes) : (st.writeURLSegment seg).BuiltOf st.TokenStep := by
  rw [writeURLSegment]
  exact .ite (.ite (.place _) (.write _)) (.wrote <| .place _)

theorem built_separated {act : Bytes → Scan Num Unit} (h : ∀ p, (act p).BuiltOf st.TokenStep) (sep : Bytes)
    (ps : List Bytes) : (separated sep act ps).BuiltOf st.TokenStep := by
  induction ps with
  | nil => exact .pure _
  | cons p ps ih =>
    cases ps with
    | nil => exact h p
    | cons q ps => exact .bind (h p) fun _ => .wrote <| ih

theorem built_writeURLPath (path : Bytes) : (st.writeURLPath path).BuiltOf st.TokenStep :=
  .ite (.write _) (built_separated built_writeURLSegment _ _)

theorem built_writeURLParam (param : Bytes) : (st.writeURLParam param).BuiltOf st.TokenStep := by
  rw [writeURLParam]
  split
  · exact .write _
  split
  · exact .write _
  exact .wrote <| .place _

theorem built_writeURLSections (sections : List Bytes) : (st.writeURLSections sections).BuiltOf st.TokenStep := by
  induction sections with
  | nil => exact .pure _
  | cons sect sections ih =>
    exact .wrote <| .bind (built_separated built_writeURLParam _ _) fun _ => ih

theorem built_writeURLQuery (url : Bytes) : (st.writeURLQuery url).BuiltOf st.TokenStep := by
  rw [writeURLQuery]
  split
  · exact .pure _
  exact .bind (built_writeURLPath _) fun _ => built_writeURLSections _

theorem built_writeURLSecret (pw : Bytes) : (st.writeURLSecret pw).BuiltOf st.TokenStep :=
  .ite (.write _) (.ite (.place _) (.place _))

theorem built_maskURLParameters (url : Bytes) (depth : Nat) :
    (st.maskURLParameters url depth).BuiltOf st.TokenStep := by
  rw [maskURLParameters]
  split
  · exact .wrote <| .bind (built_writeURLSecret _) fun _ => .invoke _
  refine .ite (.ite .panic ?_) (.ite (.ite .panic ?_) ?_)
  · exact .bind (built_writeURLPath _) fun _ => .write _
  · exact .called fun _ => .write _
  split
  · exact .called fun _ => .called fun _ => .pure _
  exact built_writeURLQuery url

theorem built_writeAgentPieces (depth : Nat) (ps : List AgentPiece) :
    (writeAgentPieces depth ps : Scan Num Unit).BuiltOf st.TokenStep := by
  induction ps with
  | nil => exact .pure _
  | cons p ps ih =>
    cases p with
    | run text => exact .called fun _ => ih
    | product core => exact .wrote <| ih

theorem built_quotedEqualPair (quote trimmed key val : Bytes) (forced override : Bool) (depth : Nat) :
    (st.quotedEqualPair quote trimmed key val forced override depth).BuiltOf st.TokenStep := by
  rw [quotedEqualPair]
  refine .ite ?_ (.ite ?_ ?_)
  · exact .wrote <| .bind (built_processSingleToken ..) fun _ => .wrote <| .pure _
  · refine .wrote <| .ite ?_ ?_
    · exact .called fun _ => .wrote <| .pure _
    exact .called fun _ => .wrote <| .pure _
  refine .wrote <| .bind (built_writeKeyHalf _) fun _ => .wrote <| ?_
  refine .ite ?_ (.ite ?_ (.ite ?_ ?_))
  · exact .bind (built_processSingleToken ..) fun _ => .wrote <| .pure _
  · exact .called fun _ => .wrote <| .pure _
  · exact .called fun _ => .wrote <| .pure _
  exact .called fun _ => .wrote <| .pure _

theorem built_bareEqualPair (key val : Bytes) (override : Bool) (depth : Nat) :
    (st.bareEqualPair key val override depth).BuiltOf st.TokenStep := by
  refine .bind (built_writeKeyHalf _) fun _ => .wrote <| .ite ?_ (.ite ?_ ?_)
  · exact .called fun _ => .pure _
  · exact .called fun _ => .pure _
  exact .bind (built_processSingleToken ..) fun _ => .pure _

theorem built_processEqualPair (rawToken : Bytes) (forced override : Bool) (depth : Nat) :
    (st.processEqualPair rawToken forced override depth).BuiltOf st.TokenStep := by
  rw [processEqualPair]
  split
  · exact .pure _
  refine .ite (.pure _) (.ite (.pure _) (.ite (.ite ?_ ?_) (built_bareEqualPair ..)))
  · exact .wrote <| .bind (built_processSingleToken ..) fun _ => .wrote <| .pure _
  split
  · exact .pure _
  exact built_quotedEqualPair ..

theorem built_colonKey (rawToken keyRaw key : Bytes) (keySensitive : Bool) :
    (st.colonKey rawToken keyRaw key keySensitive).BuiltOf st.TokenStep := by
  refine .ite ?_ (.ite ?_ ?_)
  · exact .bind (built_processSingleToken ..) fun _ => .wrote <| .pure _
  · exact .bind (built_writeKeyHalf _) fun _ => .wrote <| .pure _
  exact .wrote <| .pure _

theorem built_processColonPair (rawToken : Bytes) (override : Bool) (depth : Nat) :
    (st.processColonPair rawToken override depth).BuiltOf st.TokenStep := by
  refine .ite (.pure _) ?_
  split
  · exact .pure _
  refine .ite ?_ (.ite (built_colonKey ..) (.ite ?_ ?_))
  · exact .wrote <| .pure _
  · exact .bind (built_processSingleToken ..) fun _ => .wrote <|
      .bind (built_processSingleToken ..) fun _ => .pure _
  exact .wrote <| .wrote <| .called fun _ => .pure _

section Shapes

variable (t : TokenCall)

theorem built_tokenRest : (st.tokenRest t).BuiltOf st.TokenStep := by
  refine .ite ?_ (.ite ?_ ?_)
  · exact .wrote <| .pure _
  · refine .wrote <| .ite ?_ ?_
    · exact .called fun _ => .wrote <| .pure _
    exact .called fun _ => .wrote <| .pure _
  exact .bind (built_processSingleToken ..) fun _ => .pure _

theorem built_tokenColonPair : (st.tokenColonPair t).BuiltOf st.TokenStep :=
  .called fun _ => .ite (.pure _) (built_tokenRest t)

theorem built_tokenWideColon : (st.tokenWideColon t).BuiltOf st.TokenStep := by
  rw [tokenWideColon]
  split
  · exact built_tokenColonPair t
  exact .bind (built_writeKeyHalf _) fun _ => .wrote <| .ite (.pure _) (.invoke _)

theorem built_tokenEqualPair : (st.tokenEqualPair t).BuiltOf st.TokenStep :=
  .called fun _ => .ite (.pure _) (built_tokenWideColon t)

theorem built_tokenForcedColon : (st.tokenForcedColon t).BuiltOf st.TokenStep :=
  .ite (.bind (built_processSingleToken ..) fun _ => .pure _) (built_tokenEqualPair t)

theorem built_tokenCompactPair : (st.tokenCompactPair t).BuiltOf st.TokenStep :=
  .ite (.called fun _ => .ite (.pure _) (built_tokenForcedColon t)) (built_tokenForcedColon t)

theorem built_tokenLogPrefix : (st.tokenLogPrefix t).BuiltOf st.TokenStep :=
  .ite (.wrote <| .ite (.pure _) (.invoke _)) (built_tokenCompactPair t)

theorem built_tokenTimestamp : (st.tokenTimestamp t).BuiltOf st.TokenStep :=
  .ite (.wrote <| .pure _) (built_tokenLogPrefix t)

theorem built_tokenTelegram : (st.tokenTelegram t).BuiltOf st.TokenStep := by
  refine .ite ?_ (.ite ?_ (built_tokenTimestamp t))
  · exact .bind (built_processSingleToken ..) fun _ => .pure _
  exact .bind (built_writeURLPath _) fun _ => .pure _

theorem built_tokenURL : (st.tokenURL t).BuiltOf st.TokenStep := by
  refine .ite (built_tokenTelegram t) (.ite (.ite ?_ ?_) ?_)
  · exact .bind (built_processSingleToken ..) fun _ => .pure _
  · exact .wrote <| .called fun _ => .wrote <| .pure _
  split
  · exact .wrote <| .called fun _ => .pure _
  · exact .wrote <| .called fun _ => .pure _
  exact .called fun _ => .pure _

theorem built_tokenChain : (st.tokenChain t).BuiltOf st.TokenStep := by
  refine .ite (built_tokenURL t) (.ite ?_ ?_)
  · exact .wrote <| .called fun _ => .wrote <| .pure _
  split
  · refine .ite ?_ (built_tokenURL t)
    exact .wrote <| .wrote <| .called fun _ => .pure _
  exact built_tokenURL t

theorem built_tokenBytesLiteral : (st.tokenBytesLiteral t).BuiltOf st.TokenStep := by
  refine .ite (.wrote <| .ite ?_ (.ite ?_ ?_)) (built_tokenChain t)
  · exact .bind (built_processSingleToken ..) fun _ => .wrote <| .pure _
  · exact .bind (built_processBinaryBlob ..) fun _ => .wrote <| .pure _
  exact .called fun _ => .wrote <| .pure _

theorem built_tokenJSONLiteral : (st.tokenJSONLiteral t).BuiltOf st.TokenStep := by
  rw [tokenJSONLiteral]
  split
  · exact built_tokenBytesLiteral t
  refine .ite ?_ (.capture _ fun _ _ => .wrote <| .pure _)
  exact .wrote <| .bind (built_processSingleToken ..) fun _ => .wrote <| .pure _

theorem built_tokenMarker : (st.tokenMarker t).BuiltOf st.TokenStep := by
  refine .ite (built_tokenJSONLiteral t) (.ite ?_ (.ite ?_ (.ite ?_ (built_tokenJSONLiteral t))))
  · exact .called fun _ => .pure _
  · exact .wrote <| .pure _
  exact .called fun _ => .pure _

theorem built_processTokenLogic : (st.processTokenLogic t).BuiltOf st.TokenStep := by
  refine .ite (.bind (built_processSingleToken ..) fun _ => .pure _) ?_
  split
  · exact .wrote <| .called fun _ => .wrote <| .pure _
  exact built_tokenMarker t

end Shapes

theorem built_processAndAppend (token : Bytes) (s : SegmentState) (depth : Nat) :
    (st.processAndAppend token s depth).BuiltOf st.TokenStep := by
  rw [processAndAppend]
  split
  · exact .wrote <| .pure _
  split
  · exact .panic
  split
  · exact .wrote <| .pure _
  exact .called fun _ => .pure _

theorem built_scanPieces (depth : Nat) (ps : List Piece) (s : SegmentState) :
    (scanPieces depth ps s : Scan Num Unit).BuiltOf st.TokenStep := by
  induction ps generalizing s with
  | nil => exact .pure _
  | cons p ps ih =>
    cases p with
    | token raw seenInvalid => exact .called fun _ => ih _
    | boundary c text glued => exact .wrote <| ih _

theorem built_writeCarve (cv : Carve) (secret : Bytes) : (st.writeCarve cv secret).BuiltOf st.TokenStep := by
  refine .ite (.write _) ?_
  split
  · exact .place _
  exact .ite (.place _) (.place _)

theorem built_scanCarves (logLine : Bytes) (depth : Nat) (cvs : List Carve) (chunkStart : Nat)
    (inQuote : Bool) (quoteChar : Nat) :
    (st.scanCarves logLine depth cvs chunkStart inQuote quoteChar).BuiltOf st.TokenStep := by
  induction cvs generalizing chunkStart inQuote quoteChar with
  | nil => exact .ite (.called fun _ => .pure _) (.pure _)
  | cons cv cvs ih =>
    have hcarve (q : Bool × Nat) := Prog.BuiltOf.bind (built_writeCarve cv
      (slice logLine cv.start cv.stop)) fun _ => .bind (.write (carveQuote logLine cv)) fun _ =>
        ih (cv.stop + (carveQuote logLine cv).length) q.1 q.2
    rw [scanCarves]
    split
    · exact .called fun q => .wrote <| hcarve q
    exact .bind (.pure _) fun q => .wrote <| hcarve q

theorem built_scanLine (logLine : Bytes) (depth : Nat) : (st.scanLine logLine depth).BuiltOf st.TokenStep :=
  .ite (.pure _) (.ite (.write _) (.ite (.place _) (.wrote <| built_scanCarves ..)))

theorem built_body (f : Frame) : (st.machine.body f).BuiltOf st.TokenStep := by
  cases f with
  | scanLine logLine depth => exact built_scanLine logLine depth
  | scanSegmentFrom segment depth inQuote quoteChar => exact .bind (built_scanPieces ..) fun _ => .pure _
  | processAndAppend token state depth => exact built_processAndAppend token state depth
  | processTokenLogic t => exact built_processTokenLogic t
  | processEqualPair rawToken forced override depth => exact built_processEqualPair rawToken forced override depth
  | processColonPair rawToken override depth => exact built_processColonPair rawToken override depth
  | maskURLParameters url depth => exact built_maskURLParameters url depth
  | scanUserAgent ua depth => exact built_writeAgentPieces depth _

end ConfigState

end PiiShield

import Decern.ReadWindows
import Decern.RecordSigner
import Decern.SegmentStore
import Mathlib.Tactic

/-!
# One law of succession

The verifier's account of who signed a log, and the two places that refuse a
key before it signs: the open that adopts a head, and the rotation of an open
handle.
-/

namespace Decern

open ByteText (Bytes newline)
open LineText (cut joined terminatedPrefix)

variable (P : Platform)

/-! ## Attribution -/

/-- The key of a ring that a record is attributed to. -/
def RecordIn.signer (record : RecordIn) (keys : List VerifyingKey) :
    Option String :=
  (record.signature P).bind fun sig =>
    (recordSigner P keys (record.digest P) sig record.kid).toOption

def lineSigner (keys : List VerifyingKey) (line : String) : Option String :=
  match readRecord P line with
  | .ok record => record.signer P keys
  | .error _ => none

/-- The signature check is the attribution, then the succession rule. -/
theorem checkSignature_eq_ok_iff {keys : List VerifyingKey}
    {state : VerifyState} {record : RecordIn} {signers : List SignerSpan}
    (hkeys : keys ≠ []) :
    checkSignature P keys state record = .ok signers ↔
      ∃ signer, record.signer P keys = some signer ∧
        Succession.Admits state.signers signer ∧
        signers = Succession.extend state.signers signer state.count := by
  unfold checkSignature RecordIn.signer RecordIn.signature
  rw [if_neg (by simpa using hkeys)]
  unfold checkSigner
  cases P.decodeBase64 record.sigB64 with
  | none => simp
  | some bytes =>
      simp only [Option.bind_some]
      cases toSignature bytes with
      | none => simp
      | some sig =>
          simp only [Option.bind_some, RecordIn.digest]
          cases recordSigner P keys
              (chainHash P (ByteText.encode record.entry) record.prev) sig
              record.kid with
          | error why => simp [Except.toOption]
          | ok signer =>
              simp only [succeed_eq_ok_iff, Except.toOption,
                Option.some.injEq, exists_eq_left']

section Account

variable {P} {keys : List VerifyingKey} {state final : VerifyState}

/-- The signers a verification ends with account for the records read. -/
theorem accounts_of_verifyFrom (hkeys : keys ≠ []) {texts : List String}
    {holders : List String}
    (haccounts : Succession.Accounts state.signers holders)
    (hcount : holders.length = state.count)
    (hok : verifyFrom P keys none state (texts.map Except.ok) = .ok final) :
    ∃ more, (texts.filter notBlank).map (lineSigner P keys) =
        more.map some ∧
      Succession.Accounts final.signers (holders ++ more) := by
  induction texts generalizing state holders with
  | nil =>
      cases hok
      exact ⟨[], rfl, by rw [List.append_nil]; exact haccounts⟩
  | cons text rest ih =>
      rw [List.map_cons, verifyFrom_cons] at hok
      obtain ⟨next, hline, hrest⟩ := Serde.bind_eq_ok.mp hok
      cases htext : notBlank text with
      | false =>
          rw [verifyLine_blank htext] at hline
          cases hline
          rw [List.filter_cons, htext]
          refine ih ?_ ?_ hrest
          · exact haccounts
          · exact hcount
      | true =>
          rw [verifyLine_notBlank htext] at hline
          obtain ⟨record, signers, records, haccepted, _, rfl⟩ :=
            (verifyRecord_eq_ok_iff P _ _ _ _ _).mp hline
          obtain ⟨signer, hsigner, hadmits, rfl⟩ :=
            (checkSignature_eq_ok_iff P hkeys).mp haccepted.signature
          have hnext := haccounts.extend hadmits
          rw [hcount] at hnext
          have hlength : (holders ++ [signer]).length = state.count + 1 := by
            rw [List.length_append, hcount, List.length_singleton]
          obtain ⟨more, hmore, hfinal⟩ := @ih _ (holders ++ [signer]) hnext
            hlength hrest
          refine ⟨signer :: more, ?_, ?_⟩
          · rw [List.filter_cons, htext, if_pos rfl, List.map_cons, hmore,
              lineSigner, haccepted.read]
            simp only [hsigner, List.map_cons]
          · rw [List.append_assoc] at hfinal
            exact hfinal

end Account

/-! ## One more record -/

/-- A line that continues an accepted log in everything but the succession
rule, and the key it is attributed to. -/
structure NextRecord (keys : List VerifyingKey) (report : VerifyReport)
    (path : String) (line : Bytes) (signer : String) : Prop where
  complete : newline ∉ line
  record : ∃ text record, decodeLine path line = .ok text ∧
    notBlank text = true ∧ readRecord P text = .ok record ∧
    (∃ entry, parseEntry P record.entry = .ok entry ∧
      entry.seq = report.entries) ∧
    record.prev = report.root.getD genesis ∧
    HexText.encode (record.digest P) = record.hash ∧
    record.signer P keys = some signer

/-- A log with one more line in its last file. -/
def extended (earlier : List LedgerFile) (path : String) (content line : Bytes) :
    List LedgerFile :=
  earlier ++ [⟨path, content ++ (line ++ [newline])⟩]

section Extended

variable {P} {keys : List VerifyingKey} {earlier : List LedgerFile}
  {path : String} {content line : Bytes} {report : VerifyReport}
  {signer : String}

theorem eachLine_append_file (earlier : List LedgerFile)
    (file : LedgerFile) :
    eachLine none (earlier ++ [file]) =
      eachLine none earlier ++
        (physicalLines file.content).map (decodeLine file.path) := by
  induction earlier with
  | nil => rfl
  | cons first rest ih =>
      cases rest with
      | nil => rfl
      | cons next others =>
          have hsplit : eachLine none (first :: next :: others ++ [file]) =
              (physicalLines first.content).map (decodeLine first.path) ++
                eachLine none (next :: others ++ [file]) := rfl
          rw [hsplit, ih]
          simp [eachLine]

theorem prefixLines_extended (hcontent : (cut newline content).2 = [])
    (hline : newline ∉ line) :
    prefixLines (extended earlier path content line) =
      (untilUnread (eachLine none (earlier ++ [⟨path, content⟩]) ++
        [decodeLine path line]), none) := by
  have hjoined : content = joined newline (cut newline content).1 := by
    have hself := LineText.joined_cut_append_tail newline content
    rw [hcontent, List.append_nil] at hself
    exact hself.symm
  have hlines : ∀ other ∈ (cut newline content).1, newline ∉ other :=
    fun _ hother => LineText.sep_notMem_of_mem_cut newline hother
  have hcut : cut newline (content ++ (line ++ [newline])) =
      ((cut newline content).1 ++ [line], []) := by
    have hone := LineText.cut_line_append newline hline []
    conv_lhs => rw [hjoined]
    rw [LineText.cut_joined_append newline hlines, hone]
    rfl
  have htorn : (prefixLines (extended earlier path content line)).2 =
      none := by
    rw [extended, prefixLines_append_snd, if_pos (congrArg Prod.snd hcut)]
  have hbefore := physicalLines_of_tail_eq_nil hcontent
  have hafter := physicalLines_of_tail_eq_nil (congrArg Prod.snd hcut)
  refine Prod.ext ?_ htorn
  rw [fst_prefixLines htorn, extended, chainedLines, chainedLinesBounded,
    eachLine_append_file, eachLine_append_file]
  simp only [hbefore, hafter, hcut, List.map_append, List.map_singleton,
    List.append_assoc]

/-- An accepted log's last file ends with a line. -/
theorem tail_of_verifyWithKeys
    (haccepted : verifyWithKeys P keys (earlier ++ [⟨path, content⟩]) =
      .ok report) : (cut newline content).2 = [] := by
  obtain ⟨htorn, _⟩ := verifyState_of_verifyWithKeys haccepted
  rw [prefixLines_append_snd] at htorn
  by_contra htail
  rw [if_neg htail] at htorn
  cases htorn

theorem verifyWithKeys_error_iff {files : List LedgerFile}
    {lines : List (Except LedgerError String)}
    (hlines : prefixLines files = (lines, none)) :
    (∃ error, verifyWithKeys P keys files = .error error) ↔
      ∃ error, verifyState P keys none lines = .error error := by
  unfold verifyWithKeys verifyInner verifyPrefix verifyLines
  rw [hlines]
  cases verifyState P keys none lines <;> simp [Except.map]

/-- The verifier takes a well-formed next record exactly when the succession
rule admits its key. -/
theorem verifyLine_next {state : VerifyState}
    (hkeys : keys ≠ [])
    (hprev : report.root.getD genesis = state.prev)
    (hcount : report.entries = state.count)
    (hnext : NextRecord P keys report path line signer) :
    (∃ next, verifyLine P keys none state (decodeLine path line) =
        .ok next) ↔
      Succession.Admits state.signers signer := by
  obtain ⟨text, record, hdecode, hblank, hread, hentry, hrecord, hhash,
    hsigner⟩ := hnext.record
  rw [hdecode, verifyLine_notBlank hblank]
  constructor
  · rintro ⟨next, hok⟩
    obtain ⟨found, signers, records, haccepted, _⟩ :=
      (verifyRecord_eq_ok_iff P _ _ _ _ _).mp hok
    have hsame := haccepted.read
    rw [hread] at hsame
    cases hsame
    obtain ⟨other, hother, hadmits, _⟩ :=
      (checkSignature_eq_ok_iff P hkeys).mp haccepted.signature
    rw [hsigner] at hother
    cases hother
    exact hadmits
  · intro hadmits
    rw [hcount] at hentry
    have haccepted : Accepted P keys state text record
        (Succession.extend state.signers signer state.count) :=
      { read := hread
        entry := hentry
        prev := hrecord.trans hprev
        hash := hhash
        signature := (checkSignature_eq_ok_iff P hkeys).mpr
          ⟨signer, hsigner, hadmits, rfl⟩ }
    exact ⟨_, (verifyRecord_eq_ok_iff P _ _ _ _ _).mpr
      ⟨record, _, _, haccepted, rfl, rfl⟩⟩

theorem admits_iff_successor {state : VerifyState}
    (hwell : state.WellFormed P) (signer : String) :
    Succession.Admits state.signers signer ↔
      Succession.successor state.signers signer = none := by
  rw [Succession.admits_iff hwell.nodup,
    Succession.successor_eq_none_iff hwell.nodup]

/-- An accepted log extended by a record of a key is rejected exactly when the
report says the key is superseded. -/
theorem rejects_next_iff (hkeys : keys ≠ [])
    (haccepted : verifyWithKeys P keys (earlier ++ [⟨path, content⟩]) =
      .ok report)
    (hnext : NextRecord P keys report path line signer) :
    (∃ error, verifyWithKeys P keys (extended earlier path content line) =
        .error error) ↔ (report.supersededBy signer).isSome := by
  have hcontent := tail_of_verifyWithKeys haccepted
  obtain ⟨_, state, hstate, rfl⟩ := verifyState_of_verifyWithKeys haccepted
  have hwell := verifyState_wellFormed P hstate
  have hline := verifyLine_next hkeys (state.report_root P hwell keys) rfl
    hnext
  rw [admits_iff_successor hwell] at hline
  rw [chainedLines, chainedLinesBounded, verifyState_untilUnread] at hstate
  rw [verifyWithKeys_error_iff (prefixLines_extended hcontent hnext.complete),
    verifyState_untilUnread, verifyState_append, hstate]
  simp only [bind, Except.bind, verifyFrom_singleton]
  have hreport : (state.report keys).supersededBy signer =
      Succession.successor state.signers signer := rfl
  rw [hreport]
  cases hresult : verifyLine P keys none state (decodeLine path line) with
  | ok next =>
      rw [hline.mp ⟨next, hresult⟩]
      simp
  | error error =>
      refine iff_of_true ⟨error, rfl⟩ ?_
      rw [Option.isSome_iff_ne_none]
      intro hnone
      obtain ⟨next, hok⟩ := hline.mpr hnone
      rw [hresult] at hok
      cases hok

end Extended

/-! ## The two refusals -/

def RefusedAsSuperseded {α : Type} (result : Except LedgerError α)
    (key : VerifyingKey) : Prop :=
  ∃ why, result = .error (.keySuperseded (keyFingerprint key) why)

section Refusals

variable {P} {keys : List VerifyingKey} {earlier : List LedgerFile}
  {path : String} {content : Bytes} {report : VerifyReport}

/-- An open that reads an accepted log and its anchor refuses the keys the
report says are superseded. -/
theorem resolveOpenHead_refuses_iff {fault : Option OpenFault}
    {anchor : Option (Option Bytes)} {signer : VerifyingKey}
    (haccepted : verifyWithKeys P keys (earlier ++ [⟨path, content⟩]) =
      .ok report)
    (hread : failsAt fault .read = none)
    (hanchor : AnchorHolds P keys
      (prefixLines (earlier ++ [⟨path, content⟩])).1 anchor) :
    RefusedAsSuperseded (resolveOpenHead P fault earlier path content keys
        signer anchor).2 signer ↔
      (report.supersededBy (keyFingerprint signer)).isSome := by
  obtain ⟨htorn, state, hstate, rfl⟩ :=
    verifyState_of_verifyWithKeys haccepted
  rw [← fst_prefixLines htorn] at hstate
  have hconsult := (consultAnchor_eq_ok_iff P none anchor hstate).mpr hanchor
  have hprefix := (verifyPrefix_eq_ok_iff P).mpr ⟨state, hstate, rfl, rfl, rfl⟩
  rw [htorn] at hprefix
  simp only [RefusedAsSuperseded, resolveOpenHead, hread, judgeOpenHead,
    hprefix, hconsult]
  cases (state.report keys).supersededBy (keyFingerprint signer) with
  | none => simp
  | some next => simp

/-- A rotation refuses the keys its handle's signers say are superseded. -/
theorem rotate_refuses_iff {ledger : Ledger} (newKey : SigningKey)
    (hsigners : report.signers = ledger.signers) :
    RefusedAsSuperseded (ledger.rotate P newKey).2 (P.verifyingKey newKey) ↔
      (report.supersededBy
        (keyFingerprint (P.verifyingKey newKey))).isSome := by
  have hreport : report.supersededBy
      (keyFingerprint (P.verifyingKey newKey)) =
        Succession.successor ledger.signers
          (keyFingerprint (P.verifyingKey newKey)) := by
    rw [← hsigners]
    rfl
  rw [hreport]
  unfold RefusedAsSuperseded Ledger.rotate
  cases hnext : Succession.successor ledger.signers
      (keyFingerprint (P.verifyingKey newKey)) with
  | none => simp [hnext]
  | some next => simp [hnext]

end Refusals

/-! ## Handles and the log they append to -/

/-- A live handle's file holds the lines it counts, to its head unless they
do not verify. -/
structure Ledger.Accounted (path : String) (ledger : Ledger)
    (lines : List Bytes) (content : Bytes) : Prop where
  head : ledger.Heads P path lines
  complete : ∀ line ∈ lines, newline ∉ line
  live : ledger.failed = false → content = joined newline lines

section Handles

variable {P} {path : String} {ledger other : Ledger} {lines : List Bytes}
  {content : Bytes}

namespace Ledger.Accounted

theorem congr (haccounted : ledger.Accounted P path lines content)
    (hheads : ledger.Heads P path lines → other.Heads P path lines)
    (hfailed : other.failed = false → ledger.failed = false) :
    other.Accounted P path lines content where
  head := hheads haccounted.head
  complete := haccounted.complete
  live := fun hlive => haccounted.live (hfailed hlive)

theorem setSync (haccounted : ledger.Accounted P path lines content)
    (sync : Bool) :
    ({ ledger with sync } : Ledger).Accounted P path lines content :=
  haccounted.congr (fun hheads => hheads.setSync sync) id

theorem fail (haccounted : ledger.Accounted P path lines content)
    (file : Bytes) :
    ({ ledger with failed := true } : Ledger).Accounted P path lines file where
  head := haccounted.head.fail
  complete := haccounted.complete
  live := fun hlive => by cases hlive

theorem rotate (haccounted : ledger.Accounted P path lines content)
    (newKey : SigningKey) :
    (ledger.rotate P newKey).1.Accounted P path lines content := by
  apply haccounted.congr fun hheads => hheads.rotate newKey
  unfold Ledger.rotate
  simp only
  split <;> exact id

theorem advance (haccounted : ledger.Accounted P path lines content)
    (hlive : ledger.failed = false) (entry : Entry) :
    (ledger.advance P entry).Accounted P path
      (lines ++ [recordLine P (ledger.sealNext P entry)])
      (content ++ (recordLine P (ledger.sealNext P entry) ++ [newline])) where
  head := haccounted.head.advance entry
  complete := by
    intro line hline
    rcases List.mem_append.mp hline with hbefore | hlast
    · exact haccounted.complete line hbefore
    · rw [List.mem_singleton.mp hlast]
      exact newline_notMem_recordLine P _
  live := by
    intro _
    rw [haccounted.live hlive]
    simp

theorem append (haccounted : ledger.Accounted P path lines content)
    (entry : Entry) (fault : Option WriteFault) :
    match ledger.append P path content entry fault with
    | (after, file, .ok record) =>
        after.Accounted P path (lines ++ [recordLine P record]) file
    | (after, file, .error _) => after.Accounted P path lines file := by
  rcases ledger.append_cases P path content entry fault with
    ⟨_, hresult⟩ | ⟨hlive, hresult⟩ | ⟨_, written, err, hresult⟩
  · rw [hresult]
    exact haccounted
  · rw [hresult]
    exact haccounted.advance hlive entry
  · rw [hresult]
    exact haccounted.fail _

theorem appendEach {records : List RecordOut}
    (haccounted : ledger.Accounted P path
      (lines ++ records.map (recordLine P)) content)
    (entries : List (Entry × Option WriteFault)) :
    match Ledger.appendEach P path ledger content records entries with
    | (after, file, all, _) =>
        after.Accounted P path (lines ++ all.map (recordLine P)) file := by
  induction entries generalizing ledger content records with
  | nil => exact haccounted
  | cons first rest ih =>
      obtain ⟨entry, fault⟩ := first
      have hstep := haccounted.append entry fault
      rw [Ledger.appendEach]
      generalize ledger.append P path content entry fault = result at hstep ⊢
      obtain ⟨after, file, outcome⟩ := result
      cases outcome with
      | error error => exact hstep
      | ok record =>
          apply ih
          simpa using hstep

theorem appendAll (haccounted : ledger.Accounted P path lines content)
    (entries : List (Entry × Option WriteFault))
    (syncFault : Option String) :
    match ledger.appendAll P path content entries syncFault with
    | (after, file, records, _) =>
        after.Accounted P path (lines ++ records.map (recordLine P))
          file := by
  have hstart : ({ ledger with sync := false } : Ledger).Accounted P path
      (lines ++ ([] : List RecordOut).map (recordLine P)) content := by
    simpa using haccounted.setSync false
  have heach := hstart.appendEach entries
  unfold Ledger.appendAll
  generalize Ledger.appendEach P path { ledger with sync := false } content []
    entries = result at heach ⊢
  obtain ⟨last, file, records, outcome⟩ := result
  have hlast := heach.setSync ledger.sync
  simp only
  split
  case isTrue =>
    cases syncFault with
    | none => exact hlast
    | some err => exact hlast.fail file
  case isFalse => exact hlast

/-- A live handle on a log the verifier accepts has the signers of its
report. -/
theorem signers (haccounted : ledger.Accounted P path lines content)
    (hlive : ledger.failed = false) {report : VerifyReport}
    (haccepted : verifyWithKeys P ledger.verifiers [⟨path, content⟩] =
      .ok report) :
    report.signers = ledger.signers := by
  have hcut := LineText.cut_joined newline haccounted.complete
  obtain ⟨htorn, state, hstate, rfl⟩ :=
    verifyState_of_verifyWithKeys haccepted
  rw [← fst_prefixLines htorn, verifyState_single, haccounted.live hlive,
    hcut] at hstate
  exact haccounted.head.signers hstate

end Ledger.Accounted

end Handles

/-! ## Runs -/

/-- The open handle accounts for the file. -/
def World.Accounted (path : String) (world : World) : Prop :=
  ∀ session, world.session = some session →
    ∃ content, world.file = some content ∧
      session.ledger.Accounted P path session.lines content

section Runs

variable {P} {path : String}

theorem Session.appended_accounted {session : Session} {ledger : Ledger}
    {file : Bytes} {records : List RecordOut}
    (haccounted : ledger.Accounted P path
      (session.lines ++ records.map (recordLine P)) file) :
    (session.appended P ledger file records).Accounted P path := by
  rintro _ ⟨⟩
  exact ⟨file, rfl, haccounted⟩

theorem step_accounted (target : Target) (world : World)
    (operation : Operation) (hworld : world.Accounted P path) :
    (world.step P target path operation).Accounted P path := by
  unfold World.step
  split
  case h_1 key retired anchor fault hsession =>
    split
    case h_1 file error hopen =>
      intro session hnone
      cases hnone
    case h_2 file ledger hopen =>
      obtain ⟨content, rfl, _, htracks⟩ := openSingleInner_tracks P hopen
      rintro _ ⟨⟩
      exact ⟨content, rfl, Or.inl htracks.counts, htracks.complete,
        htracks.live⟩
  case h_2 => exact hworld
  case h_3 => exact hworld
  case h_4 session entry fault hsession =>
    obtain ⟨content, hfile, haccounted⟩ := hworld session hsession
    have happend := haccounted.append entry fault
    rw [hfile, Option.getD_some]
    generalize session.ledger.append P path content entry fault = result at *
    obtain ⟨after, file, outcome⟩ := result
    cases outcome with
    | error error =>
        apply Session.appended_accounted
        simpa using happend
    | ok record =>
        apply Session.appended_accounted
        simpa using happend
  case h_5 session entries syncFault hsession =>
    obtain ⟨content, hfile, haccounted⟩ := hworld session hsession
    have happend := haccounted.appendAll entries syncFault
    rw [hfile, Option.getD_some]
    exact Session.appended_accounted happend
  case h_6 session newKey hsession =>
    obtain ⟨content, hfile, haccounted⟩ := hworld session hsession
    rintro _ ⟨⟩
    exact ⟨content, hfile, haccounted.rotate newKey⟩
  case h_7 session sync hsession =>
    obtain ⟨content, hfile, haccounted⟩ := hworld session hsession
    rintro _ ⟨⟩
    exact ⟨content, hfile, haccounted.setSync sync⟩
  case h_8 =>
    intro session hnone
    cases hnone

theorem after_accounted (target : Target) (file : Option Bytes)
    (operations : List Operation) :
    (World.after P target path file operations).Accounted P path := by
  apply StateRun.run_preserves (World.step P target path)
    (fun world operation hworld (_ : True) =>
      step_accounted target world operation hworld)
  · intro session hnone
    cases hnone
  · exact fun _ _ => trivial

/-- A live segmented handle has the signers of its directory's report. -/
theorem segmented_signers {dir : Directory} {handle : SegmentedLedger}
    {files : List LedgerFile} {report : VerifyReport}
    (hattached : Attached P dir handle)
    (hlive : handle.ledger.failed = false)
    (hfiles : segmentPaths dir = .ok files)
    (haccepted : verifyWithKeys P handle.ledger.verifiers files =
      .ok report) :
    report.signers = handle.ledger.signers := by
  obtain ⟨manifest, done, active, blocks, content, hlayout, hwriter⟩ :=
    hattached
  rw [hlayout.paths] at hfiles
  cases hfiles
  obtain ⟨htorn, state, hstate, rfl⟩ :=
    verifyState_of_verifyWithKeys haccepted
  rw [← fst_prefixLines htorn] at hstate
  have hread := readAs_prefixLines hlayout.holds.complete
    ⟨active.file, content⟩
  have hlines := (verifyState_readAs P hread "").mp hstate
  exact (hwriter hlive).heads.signers hlines

end Runs

/-! ## Sealed records -/

/-- A record a key of the ring seals onto an accepted log is its next one. -/
theorem nextRecord_sealed {P : Platform} {keys : List VerifyingKey}
    {report : VerifyReport} {path : String} {key : SigningKey} {entry : Entry}
    (hkey : P.verifyingKey key ∈ keys) (hentry : entry.WithinLimit)
    (hseq : entry.seq = report.entries) :
    NextRecord P keys report path
      (recordLine P (sealRecord P key entry (report.root.getD genesis)))
      (keyFingerprint (P.verifyingKey key)) where
  complete := newline_notMem_recordLine P _
  record := by
    obtain ⟨read, hread, hreadSeq⟩ :=
      parseEntry_entryJson_of_withinLimit P hentry
    refine ⟨_, _, decodeLine_recordLine P path _, ?_, readRecord_line P _,
      ⟨read, hread, hreadSeq.trans hseq⟩, rfl, rfl, ?_⟩
    · simp [notBlank, line_not_blank]
    · simp only [RecordIn.signer, RecordIn.signature, RecordIn.digest,
        RecordOut.stored, sealRecord, P.decode_encode, Option.bind_some,
        toSignature_toList, recordSigner, find?_keyFingerprint hkey,
        P.verify_sign, if_true, Except.toOption]

/-! ## The law -/

/-- The verifier's account of the records it read. -/
def SignersAccount (keys : List VerifyingKey) (files : List LedgerFile)
    (report : VerifyReport) : Prop :=
  ∃ holders, (recordLines files).map (lineSigner P keys) =
      holders.map some ∧
    Succession.Accounts report.signers holders

/-- A refusal of a key that comes exactly when the log extended by a record of
that key is rejected. -/
def RefusalExact {α : Type} (keys : List VerifyingKey)
    (earlier : List LedgerFile) (path : String) (content : Bytes)
    (report : VerifyReport) (key : VerifyingKey)
    (result : Except LedgerError α) : Prop :=
  ∀ line, NextRecord P keys report path line (keyFingerprint key) →
    (RefusedAsSuperseded result key ↔
      ∃ error, verifyWithKeys P keys (extended earlier path content line) =
        .error error)

theorem signersAccount {keys : List VerifyingKey} {files : List LedgerFile}
    {report : VerifyReport} (hkeys : keys ≠ [])
    (haccepted : verifyWithKeys P keys files = .ok report) :
    SignersAccount P keys files report := by
  have htexts := chainedLines_eq_map haccepted
  obtain ⟨_, state, hstate, rfl⟩ := verifyState_of_verifyWithKeys haccepted
  rw [htexts] at hstate
  exact accounts_of_verifyFrom hkeys Succession.accounts_nil rfl hstate

/-- Signers are one run each; an open and a live handle's rotation refuse a
key exactly when the verifier would reject its next record. -/
theorem signer_succession :
    (∀ (keys : List VerifyingKey) (files : List LedgerFile)
      (report : VerifyReport), keys ≠ [] →
      verifyWithKeys P keys files = .ok report →
        SignersAccount P keys files report) ∧
    (∀ (keys : List VerifyingKey) (earlier : List LedgerFile) (path : String)
      (content : Bytes) (report : VerifyReport) (key : VerifyingKey)
      (fault : Option OpenFault) (anchor : Option (Option Bytes)),
      key ∈ keys →
      verifyWithKeys P keys (earlier ++ [⟨path, content⟩]) = .ok report →
      failsAt fault .read = none →
      AnchorHolds P keys (prefixLines (earlier ++ [⟨path, content⟩])).1
        anchor →
        RefusalExact P keys earlier path content report key
          (resolveOpenHead P fault earlier path content keys key anchor).2) ∧
    (∀ (target : Target) (path : String) (file : Option Bytes)
      (operations : List Operation) (session : Session) (content : Bytes)
      (report : VerifyReport) (newKey : SigningKey),
      World.after P target path file operations =
        { file := some content, session := some session } →
      session.ledger.failed = false →
      verifyWithKeys P session.ledger.verifiers [⟨path, content⟩] =
        .ok report →
      P.verifyingKey newKey ∈ session.ledger.verifiers →
        RefusalExact P session.ledger.verifiers [] path content report
          (P.verifyingKey newKey) (session.ledger.rotate P newKey).2) ∧
    ∀ (files : List (String × Bytes)) (events : List SegmentEvent)
      (dir : Directory) (handle : SegmentedLedger)
      (earlier : List LedgerFile) (path : String) (content : Bytes)
      (report : VerifyReport) (newKey : SigningKey),
      SegmentStore.after P files events =
        { directory := dir, handle := some handle } →
      handle.ledger.failed = false →
      segmentPaths dir = .ok (earlier ++ [⟨path, content⟩]) →
      verifyWithKeys P handle.ledger.verifiers
        (earlier ++ [⟨path, content⟩]) = .ok report →
      P.verifyingKey newKey ∈ handle.ledger.verifiers →
        RefusalExact P handle.ledger.verifiers earlier path content report
          (P.verifyingKey newKey) (handle.ledger.rotate P newKey).2 := by
  refine ⟨?_, ?_, ?_, ?_⟩
  · intro keys files report hkeys haccepted
    exact signersAccount P hkeys haccepted
  · intro keys earlier path content report key fault anchor hkey haccepted
      hread hanchor line hnext
    rw [resolveOpenHead_refuses_iff haccepted hread hanchor,
      rejects_next_iff (List.ne_nil_of_mem hkey) haccepted hnext]
  · intro target path file operations session content report newKey hworld
      hlive haccepted hkey line hnext
    have haccounted := @after_accounted P path target file operations
    rw [hworld] at haccounted
    obtain ⟨found, hfound, hsession⟩ := haccounted session rfl
    cases hfound
    rw [rotate_refuses_iff newKey (hsession.signers hlive haccepted),
      rejects_next_iff (List.ne_nil_of_mem hkey) haccepted hnext]
  · intro files events dir handle earlier path content report newKey hstore
      hlive hfiles haccepted hkey line hnext
    have hsound := SegmentStore.after_sound P files events
    rw [hstore] at hsound
    have hattached : Attached P dir handle := hsound.2 handle rfl
    rw [rotate_refuses_iff newKey
        (segmented_signers hattached hlive hfiles haccepted),
      rejects_next_iff (List.ne_nil_of_mem hkey) haccepted hnext]

/-! ## Single steps -/

section Steps

variable (target : Target) (path : String) {session : Session}
  {content : Bytes}

theorem step_open_missing (key : SigningKey) (retired : List VerifyingKey) :
    World.step P target path { file := none, session := none }
        (.open key retired none none) =
      { file := some []
        session := some
          { ledger := Ledger.opened key (keyring P key retired) none 0 []
            lines := [] } } := by
  have hopen : openSingleInner P target none path none key retired none =
      (some [], .ok
        (Ledger.opened key (keyring P key retired) none 0 [])) := by
    cases target <;> rfl
  simp only [World.step, hopen]
  rfl

theorem step_append {entry : Entry} (hlive : session.ledger.failed = false) :
    World.step P target path { file := some content, session := some session }
        (.append entry none) =
      { file := some (content ++
          (recordLine P (session.ledger.sealNext P entry) ++ [newline]))
        session := some
          { ledger := session.ledger.advance P entry
            lines := session.lines ++
              [recordLine P (session.ledger.sealNext P entry)] } } := by
  simp [World.step, Ledger.append, Ledger.writeLine, Session.appended, hlive]

theorem step_append_unsynced {entry : Entry} {err : String}
    (hlive : session.ledger.failed = false)
    (hsync : session.ledger.sync = true) :
    World.step P target path { file := some content, session := some session }
        (.append entry (some (.unsynced err))) =
      { file := some (content ++
          (recordLine P (session.ledger.sealNext P entry) ++ [newline]))
        session := some
          { session with ledger := { session.ledger with failed := true } } } := by
  simp [World.step, Ledger.append, Ledger.writeLine, Session.appended, hlive,
    hsync]

theorem step_setSync {file : Option Bytes} (sync : Bool) :
    World.step P target path { file, session := some session }
        (.setSync sync) =
      { file
        session := some
          { session with ledger := { session.ledger with sync } } } := rfl

theorem step_rotate {file : Option Bytes} (newKey : SigningKey) :
    World.step P target path { file, session := some session }
        (.rotate newKey) =
      { file
        session := some
          { session with
            ledger := (session.ledger.rotate P newKey).1 } } := rfl

theorem sealNext_setSync (ledger : Ledger) (sync : Bool) (entry : Entry) :
    ({ ledger with sync } : Ledger).sealNext P entry =
      ledger.sealNext P entry := rfl

end Steps

/-! ## A handle that failed after its record was written -/

/-- A ledger of one record, its writer's ring holding a second key. -/
def sampleFirst : Ledger :=
  (Ledger.opened (sampleKey 1) [sampleKey 2, sampleKey 1] none 0 []).advance
    samplePlatform (sampleEntry .null)

/-- The same ledger once it is rotated to that key. -/
def sampleSecond : Ledger :=
  { sampleFirst with key := sampleKey 2 }

theorem keyring_sample :
    keyring samplePlatform (sampleKey 1) [sampleKey 2] =
      [sampleKey 2, sampleKey 1] := by
  decide

theorem sampleKid_ne :
    keyFingerprint (sampleKey 1) ≠ keyFingerprint (sampleKey 2) := by
  intro hsame
  have hvalues := sampleKey_injective (keyFingerprint_injective hsame)
  cases hvalues

theorem rotate_sampleFirst :
    sampleFirst.rotate samplePlatform (sampleKey 2) =
      (sampleSecond, .ok ()) := by
  have hring : keyring samplePlatform (sampleKey 2)
      [sampleKey 2, sampleKey 1] = [sampleKey 2, sampleKey 1] := by
    decide
  have hnone : Succession.successor sampleFirst.signers
      (keyFingerprint (samplePlatform.verifyingKey (sampleKey 2))) =
        none := by
    apply Succession.successor_eq_none_of_notMem
    intro hmem
    exact sampleKid_ne (List.mem_singleton.mp hmem).symm
  unfold Ledger.rotate
  simp only [hnone]
  exact congrArg (fun ring =>
    (({ sampleFirst with verifiers := ring, key := sampleKey 2 } : Ledger),
      (Except.ok () : Except LedgerError Unit))) hring

def sampleRotation : List Operation :=
  [.open (sampleKey 1) [sampleKey 2] none none,
    .append (sampleEntry .null) none, .rotate (sampleKey 2)]

/-- The lines the two keys write. -/
def sampleOld : Bytes := recordLine samplePlatform sampleRecord

def sampleNew : Bytes :=
  recordLine samplePlatform
    (sampleSecond.sealNext samplePlatform (sampleEntry .null))

theorem sealNext_sample :
    (Ledger.opened (sampleKey 1) [sampleKey 2, sampleKey 1] none 0
      []).sealNext samplePlatform (sampleEntry .null) = sampleRecord := by
  have hentry : (sampleEntry .null).withSeq 0 = sampleEntry .null := rfl
  simp only [Ledger.sealNext, Ledger.opened, Option.getD_none, hentry,
    sampleRecord]

theorem after_sampleRotation :
    World.after samplePlatform .unix "ledger" none sampleRotation =
      { file := some (sampleOld ++ [newline])
        session := some { ledger := sampleSecond, lines := [sampleOld] } } := by
  rw [World.after, sampleRotation, StateRun.run_cons,
    step_open_missing samplePlatform .unix "ledger", keyring_sample,
    StateRun.run_cons, step_append samplePlatform .unix "ledger" rfl,
    StateRun.run_cons, step_rotate, StateRun.run_nil, sealNext_sample,
    ← sampleFirst, rotate_sampleFirst, List.nil_append, List.nil_append,
    ← sampleOld]

/-- The new key's record reaches the file but its sync fails. -/
def sampleFailure : List Operation :=
  sampleRotation ++
    [.setSync true, .append (sampleEntry .null) (some (.unsynced "sync"))]

theorem after_sampleFailure :
    World.after samplePlatform .unix "ledger" none sampleFailure =
      { file := some (sampleOld ++ [newline] ++ (sampleNew ++ [newline]))
        session := some
          { ledger := { sampleSecond with sync := true, failed := true }
            lines := [sampleOld] } } := by
  have hrotated := after_sampleRotation
  rw [World.after] at hrotated
  rw [World.after, sampleFailure, StateRun.run_append, hrotated,
    StateRun.run_cons, step_setSync, StateRun.run_cons,
    step_append_unsynced samplePlatform .unix "ledger" rfl rfl,
    StateRun.run_nil, sealNext_setSync, sampleNew]

theorem counts_sampleSecond :
    sampleSecond.Counts samplePlatform "ledger" [sampleOld] := by
  have hentry : (sampleEntry .null).WithinLimit := by decide
  have hempty : (Ledger.opened (sampleKey 1) [sampleKey 2, sampleKey 1] none 0
      []).Counts samplePlatform "ledger" [] :=
    ⟨⟨{}, rfl, rfl, rfl, rfl⟩, by simp [samplePlatform, Ledger.opened], rfl⟩
  have hfirst := (hempty.advance samplePlatform hentry).rotate samplePlatform
    (sampleKey 2)
  have hrotated := congrArg Prod.fst rotate_sampleFirst
  rw [sampleFirst] at hrotated
  rw [hrotated] at hfirst
  exact hfirst

theorem entry_sample : (sampleEntry .null).WithinLimit := by
  decide

theorem signers_sampleNew :
    (sampleSecond.advance samplePlatform (sampleEntry .null)).signers =
      [⟨keyFingerprint (sampleKey 1), 0⟩,
        ⟨keyFingerprint (sampleKey 2), 1⟩] := by
  have hother : Succession.current sampleSecond.signers ≠
      some (keyFingerprint (sampleKey 2)) :=
    fun hsame => sampleKid_ne (Option.some.inj hsame)
  have hextend : (sampleSecond.advance samplePlatform
      (sampleEntry .null)).signers =
        Succession.extend sampleSecond.signers (keyFingerprint (sampleKey 2))
          1 := rfl
  rw [hextend, Succession.extend, if_neg hother]
  rfl

theorem verifyWithKeys_sampleFailure :
    ∃ report, verifyWithKeys samplePlatform [sampleKey 2, sampleKey 1]
        [⟨"ledger", sampleOld ++ [newline] ++ (sampleNew ++ [newline])⟩] =
          .ok report ∧
      (report.supersededBy (keyFingerprint (sampleKey 1))).isSome := by
  have hcounts := counts_sampleSecond.advance samplePlatform entry_sample
  obtain ⟨state, hstate, _, _, hsigners⟩ := hcounts.state
  have hlines : ∀ line ∈ [sampleOld, sampleNew], newline ∉ line := by
    simp only [List.forall_mem_cons, List.not_mem_nil, false_implies,
      implies_true, and_true]
    exact ⟨newline_notMem_recordLine samplePlatform sampleRecord,
      newline_notMem_recordLine samplePlatform
        (sampleSecond.sealNext samplePlatform (sampleEntry .null))⟩
  have haccepted := verifyWithKeys_joined samplePlatform hlines hstate
  have hbytes : joined newline [sampleOld, sampleNew] =
      sampleOld ++ [newline] ++ (sampleNew ++ [newline]) := by
    simp [joined]
  rw [hbytes] at haccepted
  refine ⟨_, haccepted, ?_⟩
  have hreport : (state.report
      (sampleSecond.advance samplePlatform (sampleEntry .null)).verifiers
        ).supersededBy (keyFingerprint (sampleKey 1)) =
      Succession.successor state.signers (keyFingerprint (sampleKey 1)) := rfl
  rw [hreport, hsigners, signers_sampleNew, Succession.successor, if_pos rfl]
  rfl

theorem verifyWithKeys_sampleSecond :
    ∃ report, verifyWithKeys samplePlatform sampleSecond.verifiers
      [⟨"ledger", sampleOld ++ [newline]⟩] = .ok report := by
  obtain ⟨state, hstate, _⟩ := counts_sampleSecond.state
  have hlines : ∀ line ∈ [sampleOld], newline ∉ line := by
    simp only [List.forall_mem_cons, List.not_mem_nil, false_implies,
      implies_true, and_true]
    exact newline_notMem_recordLine samplePlatform sampleRecord
  have haccepted := verifyWithKeys_joined samplePlatform hlines hstate
  have hbytes : joined newline [sampleOld] = sampleOld ++ [newline] := by
    simp [joined]
  rw [hbytes] at haccepted
  exact ⟨_, haccepted⟩

/-! ## Two segments, and a rollover that failed -/

/-- The first key writes, a rollover fails, and the second key writes in the
next segment. -/
def sampleSegments : List SegmentEvent :=
  [.opens (sampleKey 1) [sampleKey 2] { maxBytes := none, epochMs := some 10 }
      none none none,
    .calls (.append ⟨{ sampleEntry .null with tsMs := 5 }, none, none⟩),
    .calls (.append ⟨{ sampleEntry .null with tsMs := 25 },
      some ⟨.manifestWrite, "disk full"⟩, none⟩),
    .calls (.rotate (sampleKey 2)),
    .calls (.append ⟨{ sampleEntry .null with tsMs := 26 }, none, none⟩)]

def segmentsEmpty : Ledger :=
  Ledger.opened (sampleKey 1) [sampleKey 2, sampleKey 1] none 0 []

def segmentsRotated : Ledger :=
  { segmentsEmpty.advance samplePlatform
      { sampleEntry .null with tsMs := 5 } with key := sampleKey 2 }

def segmentsLast : Ledger :=
  segmentsRotated.advance samplePlatform
    { sampleEntry .null with tsMs := 26 }

/-- Their lines. -/
def segmentsOld : Bytes :=
  recordLine samplePlatform
    (segmentsEmpty.sealNext samplePlatform
      { sampleEntry .null with tsMs := 5 })

def segmentsNew : Bytes :=
  recordLine samplePlatform
    (segmentsRotated.sealNext samplePlatform
      { sampleEntry .null with tsMs := 26 })

theorem after_sampleSegments :
    ∃ dir handle,
      SegmentStore.after samplePlatform [] sampleSegments =
        { directory := dir, handle := some handle } ∧
      handle.ledger = segmentsLast ∧
      segmentPaths dir = .ok ([⟨"00000001.jsonl", segmentsOld ++ [newline]⟩] ++
        [⟨"00000003.jsonl", segmentsNew ++ [newline]⟩]) := by
  refine ⟨_, _, rfl, rfl, ?_⟩
  -- The model wrote each record to an empty file.
  rw [← List.nil_append (segmentsOld ++ [newline]),
    ← List.nil_append (segmentsNew ++ [newline])]
  rfl

theorem counts_segmentsLast :
    segmentsLast.Counts samplePlatform "" [segmentsOld, segmentsNew] := by
  have hempty : segmentsEmpty.Counts samplePlatform "" [] :=
    ⟨⟨{}, rfl, rfl, rfl, rfl⟩,
      by simp [samplePlatform, segmentsEmpty, Ledger.opened], rfl⟩
  have hentry : ({ sampleEntry .null with tsMs := 5 } : Entry).WithinLimit :=
    by decide
  have hfirst := (hempty.advance samplePlatform hentry).rotate samplePlatform
    (sampleKey 2)
  have hrotated : ((segmentsEmpty.advance samplePlatform
      { sampleEntry .null with tsMs := 5 }).rotate samplePlatform
        (sampleKey 2)).1 = segmentsRotated := rfl
  rw [hrotated] at hfirst
  exact hfirst.advance samplePlatform (by decide)

theorem verifyWithKeys_sampleSegments :
    ∃ report, verifyWithKeys samplePlatform segmentsLast.verifiers
      ([⟨"00000001.jsonl", segmentsOld ++ [newline]⟩] ++
        [⟨"00000003.jsonl", segmentsNew ++ [newline]⟩]) = .ok report := by
  have hold : newline ∉ segmentsOld := newline_notMem_recordLine _ _
  have hnew : newline ∉ segmentsNew := newline_notMem_recordLine _ _
  have hcut : cut newline (segmentsNew ++ [newline]) = ([segmentsNew], []) :=
    LineText.cut_line_append newline hnew []
  have hblocks : Complete [⟨"00000001.jsonl", [segmentsOld]⟩] := by
    intro block hblock line hline
    rw [List.mem_singleton.mp hblock] at hline
    rw [List.mem_singleton.mp hline]
    exact hold
  have hcounts : segmentsLast.Counts samplePlatform ""
      (sealedLines [⟨"00000001.jsonl", [segmentsOld]⟩] ++
        (cut newline (segmentsNew ++ [newline])).1) := by
    rw [hcut]
    exact counts_segmentsLast
  obtain ⟨report, haccepted, _⟩ := verifyWithKeys_sealed samplePlatform
    hblocks "00000003.jsonl" hcounts
  refine ⟨report, ?_⟩
  rw [← haccepted, terminatedPrefix, hcut]
  simp [SealedFile.file, joined]

theorem signer_succession_sample :
    SignersAccount samplePlatform [sampleKey 1] [sampleFile "ledger"]
      ((sampleVerified 0).report [sampleKey 1]) ∧
    RefusalExact samplePlatform [sampleKey 1] [] "ledger"
      (sampleFile "ledger").content ((sampleVerified 0).report [sampleKey 1])
      (sampleKey 1)
      (resolveOpenHead samplePlatform none [] "ledger"
        (sampleFile "ledger").content [sampleKey 1] (sampleKey 1) none).2 ∧
    (∃ report, RefusalExact samplePlatform sampleSecond.verifiers [] "ledger"
      (sampleOld ++ [newline]) report (sampleKey 1)
      (sampleSecond.rotate samplePlatform (sampleKey 1)).2) ∧
    ∃ report, RefusalExact samplePlatform segmentsLast.verifiers
      [⟨"00000001.jsonl", segmentsOld ++ [newline]⟩] "00000003.jsonl"
      (segmentsNew ++ [newline]) report (sampleKey 1)
      (segmentsLast.rotate samplePlatform (sampleKey 1)).2 := by
  obtain ⟨haccount, hopen, hrotate, hsegments⟩ :=
    signer_succession samplePlatform
  refine ⟨?_, ?_, ?_, ?_⟩
  · exact haccount _ _ _ (List.cons_ne_nil _ _) verifyWithKeys_sampleFile
  · apply hopen [sampleKey 1] [] "ledger" (sampleFile "ledger").content _
      (sampleKey 1) none none (List.mem_singleton.mpr rfl)
      verifyWithKeys_sampleFile rfl
    intro bytes hbytes
    cases hbytes
  · obtain ⟨report, haccepted⟩ := verifyWithKeys_sampleSecond
    exact ⟨report, hrotate .unix "ledger" none sampleRotation _ _ report
      (sampleKey 1) after_sampleRotation rfl haccepted (by decide)⟩
  · obtain ⟨dir, handle, hstore, hledger, hfiles⟩ := after_sampleSegments
    obtain ⟨report, haccepted⟩ := verifyWithKeys_sampleSegments
    rw [← hledger] at haccepted ⊢
    exact ⟨report, hsegments [] sampleSegments dir handle _ _ _ report
      (sampleKey 1) hstore (by rw [hledger]; rfl) hfiles haccepted
      (by rw [hledger]; decide)⟩

/-- The handle that failed rotates back to the first key, whose next record
the verifier would reject. -/
theorem failed_handle_rotates_back :
    ∃ (session : Session) (content : Bytes) (report : VerifyReport),
      World.after samplePlatform .unix "ledger" none sampleFailure =
        { file := some content, session := some session } ∧
      verifyWithKeys samplePlatform session.ledger.verifiers
        [⟨"ledger", content⟩] = .ok report ∧
      samplePlatform.verifyingKey (sampleKey 1) ∈ session.ledger.verifiers ∧
      ¬RefusalExact samplePlatform session.ledger.verifiers [] "ledger"
        content report (samplePlatform.verifyingKey (sampleKey 1))
        (session.ledger.rotate samplePlatform (sampleKey 1)).2 := by
  obtain ⟨report, haccepted, hsuperseded⟩ := verifyWithKeys_sampleFailure
  refine ⟨_, _, report, after_sampleFailure, haccepted, by decide, ?_⟩
  intro hexact
  have hkey : samplePlatform.verifyingKey (sampleKey 1) ∈
      [sampleKey 2, sampleKey 1] := by decide
  have hnext := @nextRecord_sealed samplePlatform [sampleKey 2, sampleKey 1]
    report "ledger" (sampleKey 1)
    ((sampleEntry .null).withSeq report.entries) hkey
    (Entry.withSeq_withinLimit.mpr entry_sample) rfl
  have hring : [sampleKey 2, sampleKey 1] ≠ [] := List.cons_ne_nil _ _
  have hrejected := (@rejects_next_iff samplePlatform _ [] "ledger" _ _ _ _
    hring haccepted hnext).mpr hsuperseded
  obtain ⟨why, hwhy⟩ := (hexact _ hnext).mpr hrejected
  have hfree : Succession.successor sampleSecond.signers
      (keyFingerprint (samplePlatform.verifyingKey (sampleKey 1))) = none :=
    if_pos rfl
  simp [Ledger.rotate, hfree] at hwhy

end Decern

import Decern.DecisionAudit
import Decern.EvidenceRuns
import Decern.SinglePrefix
import Mathlib.Tactic

/-!
# The audit projection

The file of a ledger holds sealed records, each under its own number, whatever
they say and wherever a write failed.  A projection reads the prefix of an open
handle while later operations write, and its page, proofs and head are all over
the records of that prefix.
-/

namespace Decern

open ByteText (Bytes newline)
open LineText (cut joined)
open Serde (Value)

variable (P : Platform)

/-! ## Sequenced records -/

/-- Records under their own numbers, each with bytes as its hash. -/
structure Sequenced (records : List RecordOut) : Prop where
  seq : ∀ (index : ℕ) (record : RecordOut), records[index]? = some record →
    record.entry.seq = index
  hashed : ∀ record ∈ records, ∃ leaf, record.hash = HexText.encode leaf

section Sequenced

variable {P} {records : List RecordOut}

theorem Sequenced.nil : Sequenced [] where
  seq index record hrecord := by cases hrecord
  hashed record hrecord := by cases hrecord

theorem Sequenced.take (hsequenced : Sequenced records) (count : ℕ) :
    Sequenced (records.take count) where
  seq index record hrecord := by
    rw [List.getElem?_take] at hrecord
    split_ifs at hrecord
    exact hsequenced.seq index record hrecord
  hashed record hrecord :=
    hsequenced.hashed record (List.mem_of_mem_take hrecord)

theorem Sequenced.sealNext (hsequenced : Sequenced records) {ledger : Ledger}
    (hcount : records.length = ledger.nextSeq) (entry : Entry) :
    Sequenced (records ++ [ledger.sealNext P entry]) where
  seq index record hrecord := by
    rcases lt_or_ge index records.length with hbefore | hlast
    · rw [List.getElem?_append_left hbefore] at hrecord
      exact hsequenced.seq index record hrecord
    · rw [List.getElem?_append_right hlast, List.getElem?_singleton] at hrecord
      split_ifs at hrecord with hzero
      cases hrecord
      have hindex : index = ledger.nextSeq := by omega
      rw [hindex]
      rfl
  hashed record hrecord := by
    rcases List.mem_append.mp hrecord with hbefore | hlast
    · exact hsequenced.hashed record hbefore
    · rw [List.mem_singleton.mp hlast]
      exact ⟨_, rfl⟩

end Sequenced

/-- The texts of written lines, none of them blank. -/
theorem texts_of_written {path : String} {records : List RecordOut}
    {texts : List String}
    (htexts : (records.map (recordLine P)).map (decodeLine path) =
      texts.map Except.ok) :
    texts = records.map (RecordOut.line P) ∧ texts.filter notBlank = texts := by
  rw [map_decodeLine_recordLine] at htexts
  have hsame : texts = records.map (RecordOut.line P) :=
    (List.map_injective_iff.mpr (fun _ _ => Except.ok.inj) htexts).symm
  refine ⟨hsame, List.filter_eq_self.mpr fun text htext => ?_⟩
  rw [hsame] at htext
  rcases List.mem_map.mp htext with ⟨record, _, rfl⟩
  simp [notBlank, line_not_blank]

/-! ## Written files -/

/-- The file's complete lines are those of numbered records. -/
def Recorded (content : Bytes) : Prop :=
  ∃ records : List RecordOut,
    (cut newline content).1 = records.map (recordLine P) ∧
    Sequenced records

section Files

variable {P} {path : String} {ledger after : Ledger} {lines : List Bytes}
  {content file : Bytes}

/-- The lines a handle counts are those of numbered records, this many. -/
theorem Recorded.counted (hrecorded : Recorded P content)
    (hwritten : ledger.Written path lines content) :
    ∃ records : List RecordOut,
      lines = records.map (recordLine P) ∧ Sequenced records ∧
      records.length = ledger.nextSeq := by
  rcases hrecorded with ⟨all, hall, hsequenced⟩
  have hbegins := LineText.cut_fst_mono newline hwritten.held
  rw [LineText.cut_joined newline hwritten.complete, hall] at hbegins
  have hlines : lines = (all.take lines.length).map (recordLine P) :=
    take_of_isPrefix P hbegins
  rcases hwritten.numbered with ⟨texts, htexts, hcount⟩
  rw [hlines] at htexts
  rcases texts_of_written P htexts with ⟨hsame, hfilter⟩
  refine ⟨_, hlines, hsequenced.take _, ?_⟩
  rw [← hcount, hfilter, hsame, List.length_map]

/-- Writing a part of one more record adds at most that record. -/
theorem Recorded.write (hrecorded : Recorded P content)
    (hwritten : ledger.Written path lines content)
    (hlive : ledger.failed = false) (entry : Entry) (written : ℕ) :
    Recorded P (content ++ (recordLine P (ledger.sealNext P entry) ++
      [newline]).take written) := by
  rcases hrecorded.counted hwritten with ⟨records, hlines, hsequenced, hcount⟩
  have hnext := hsequenced.sealNext (P := P) hcount entry
  have hcomplete : ∀ line ∈ (records ++ [ledger.sealNext P entry]).map
      (recordLine P), newline ∉ line := by
    intro line hline
    rcases List.mem_map.mp hline with ⟨record, _, rfl⟩
    exact newline_notMem_recordLine P record
  have hbegins : content ++ (recordLine P (ledger.sealNext P entry) ++
      [newline]).take written <+: joined newline
        ((records ++ [ledger.sealNext P entry]).map (recordLine P)) := by
    rw [hwritten.live hlive, hlines, List.map_append, LineText.joined_append]
    simp only [List.map_cons, List.map_nil, LineText.joined_cons,
      LineText.joined_nil]
    exact (List.prefix_append_right_inj _).mpr (List.take_prefix _ _)
  have hcut := LineText.cut_fst_mono newline hbegins
  rw [LineText.cut_joined newline hcomplete] at hcut
  exact ⟨_, take_of_isPrefix P hcut, hnext.take _⟩

theorem Recorded.append {entry : Entry} {fault : Option WriteFault}
    {answer : Except LedgerError RecordOut} (hrecorded : Recorded P content)
    (hwritten : ledger.Written path lines content)
    (happend : ledger.append P path content entry fault =
      (after, file, answer)) :
    Recorded P file := by
  rcases ledger.append_cases P path content entry fault with
    ⟨_, hresult⟩ | ⟨hlive, hresult⟩ | ⟨hlive, written, err, hresult⟩
  · rw [hresult] at happend
    cases happend
    exact hrecorded
  · rw [hresult] at happend
    cases happend
    have hwhole := hrecorded.write hwritten hlive entry
      (recordLine P (ledger.sealNext P entry) ++ [newline]).length
    rwa [List.take_length] at hwhole
  · rw [hresult] at happend
    cases happend
    exact hrecorded.write hwritten hlive entry written

theorem Recorded.each {items : List (Entry × Option WriteFault)}
    {records found : List RecordOut} {outcome : Except LedgerError Unit}
    (hrecorded : Recorded P content)
    (hwritten : ledger.Written path lines content)
    (heach : Ledger.appendEach P path ledger content records items =
      (after, file, found, outcome)) :
    Recorded P file := by
  induction items generalizing ledger lines content records with
  | nil =>
      cases heach
      exact hrecorded
  | cons item rest ih =>
      rcases item with ⟨entry, fault⟩
      unfold Ledger.appendEach at heach
      rcases happend : ledger.append P path content entry fault with
        ⟨next, longer, answer⟩
      rw [happend] at heach
      have hnext := hwritten.append P happend
      have hlonger := hrecorded.append hwritten happend
      cases answer with
      | error error =>
          cases heach
          exact hlonger
      | ok record => exact ih hlonger hnext heach

theorem Recorded.all {items : List (Entry × Option WriteFault)}
    {syncFault : Option String} {records : List RecordOut}
    {outcome : Except LedgerError Unit} (hrecorded : Recorded P content)
    (hwritten : ledger.Written path lines content)
    (hall : ledger.appendAll P path content items syncFault =
      (after, file, records, outcome)) :
    Recorded P file := by
  have hunsynced : ({ ledger with sync := false } : Ledger).Written path lines
      content := hwritten.congr rfl id
  unfold Ledger.appendAll at hall
  rcases heach : Ledger.appendEach P path { ledger with sync := false } content
    [] items with ⟨last, longer, found, answer⟩
  have hlonger := hrecorded.each hunsynced heach
  rw [heach] at hall
  simp only at hall
  split_ifs at hall
  · cases syncFault <;> cases hall <;> exact hlonger
  · cases hall
    exact hlonger

end Files

/-! ## Runs -/

/-- The file holds numbered records, and a handle on it counts them. -/
structure World.Recorded (path : String) (world : World) : Prop where
  written : world.Written path
  recorded : Decern.Recorded P (world.file.getD [])

section Runs

variable {P} {target : Target} {path : String} {world : World}

theorem World.step_recorded (operation : Operation)
    (hworld : world.Recorded P path) :
    (world.step P target path operation).Recorded P path where
  written := World.step_written P operation hworld.written
  recorded := by
    have hself := hworld.recorded
    unfold World.step
    split
    case h_1 key retired anchor fault hsession =>
      have hcut := openSingleInner_cut (P := P) target fault path world.file
        key retired anchor
      have hopened : Decern.Recorded P ((openSingleInner P target fault path
          world.file key retired anchor).1.getD []) := by
        unfold Decern.Recorded
        rw [hcut]
        exact hself
      split
      case h_1 heq =>
        rw [heq] at hopened
        exact hopened
      case h_2 heq =>
        rw [heq] at hopened
        exact hopened
    case h_2 => exact hself
    case h_3 => exact hself
    case h_4 session entry fault hsession =>
      rcases happend : session.ledger.append P path (world.file.getD []) entry
        fault with ⟨after, file, outcome⟩
      have hfile := hself.append (hworld.written session hsession) happend
      cases outcome <;> exact hfile
    case h_5 session entries syncFault hsession =>
      rcases hall : session.ledger.appendAll P path (world.file.getD [])
        entries syncFault with ⟨after, file, records, outcome⟩
      exact hself.all (hworld.written session hsession) hall
    case h_6 => exact hself
    case h_7 => exact hself
    case h_8 => exact hself

variable (P) in
theorem World.after_recorded (target : Target) (path : String)
    (operations : List Operation) :
    (World.after P target path none operations).Recorded P path := by
  refine StateRun.run_preserves (World.step P target path)
    (fun world operation hworld _ => World.step_recorded operation hworld) ?_
    fun _ _ => trivial
  constructor
  · intro session hnone
    cases hnone
  · exact ⟨[], rfl, .nil⟩

end Runs

/-! ## The page -/

namespace Audit

/-- The records whose decision subject has the handle. -/
def recordsOf (handle : String) (records : List RecordOut) :
    List RecordOut :=
  records.filter fun record => decide
    (record.entry.decisionSubject.map DecisionSubject.handle = some handle)

/-- The first of them, as many as one projection shows. -/
def page (handle : String) (records : List RecordOut) : List RecordOut :=
  (recordsOf handle records).take maxProjectedDecisions

theorem about_eq (handle : String) {records : List RecordOut} {seq : ℕ}
    (hseq : ∀ (index : ℕ) (record : RecordOut),
      records[index]? = some record → record.entry.seq = seq + index) :
    about handle seq records =
      (recordsOf handle records).map fun record =>
        (record.entry.seq, record) := by
  induction records generalizing seq with
  | nil => rfl
  | cons record rest ih =>
      have hfirst := hseq 0 record rfl
      have hrest := @ih (seq + 1) fun index other hother => by
        have hnext := hseq (index + 1) other hother
        omega
      rw [about, hrest]
      unfold recordsOf
      rw [List.filter_cons]
      by_cases hsame : record.entry.decisionSubject.map
          DecisionSubject.handle = some handle
      · rw [if_pos hsame, if_pos (by simpa using hsame), List.map_cons, hfirst]
        rfl
      · rw [if_neg hsame, if_neg (by simpa using hsame)]

/-- Reading a page in full succeeds when each of its records has a value. -/
theorem mapM_shown_eq_ok_iff {records : List RecordOut}
    {matched : List (ℕ × Value)} :
    (records.map fun record => (record.entry.seq, record)).mapM (shown P) =
        .ok matched ↔
      List.Forall₂ (fun record found => found.1 = record.entry.seq ∧
        parseValue P (record.line P) = some found.2) records matched := by
  induction records generalizing matched with
  | nil =>
      simp only [List.map_nil, List.mapM_nil, List.forall₂_nil_left_iff]
      constructor
      · rintro ⟨⟩
        rfl
      · rintro rfl
        rfl
  | cons record rest ih =>
      rw [List.map_cons, List.mapM_cons]
      cases hvalue : parseValue P (record.line P) with
      | none =>
          simp only [shown, hvalue, bind, Except.bind]
          constructor
          · rintro ⟨⟩
          · intro hall
            cases hall with
            | cons hfirst _ =>
                rw [hvalue] at hfirst
                cases hfirst.2
      | some value =>
          simp only [shown, hvalue]
          rw [Serde.bind_eq_ok]
          constructor
          · rintro ⟨first, hfirst, hrest⟩
            cases hfirst
            rcases Serde.bind_eq_ok.mp hrest with ⟨others, hothers, hlast⟩
            cases hlast
            exact .cons ⟨rfl, hvalue⟩ (ih.mp hothers)
          · intro hall
            cases hall with
            | cons hfirst hothers =>
                rename_i found others
                rcases found with ⟨number, shown⟩
                rcases hfirst with ⟨rfl, hshown⟩
                rw [hvalue] at hshown
                cases hshown
                refine ⟨_, rfl, Serde.bind_eq_ok.mpr
                  ⟨_, ih.mpr hothers, rfl⟩⟩

end Audit

/-! ## The proofs -/

/-- A reader's check of an inclusion proof against a tree head. -/
def InclusionProof.verifies (proof : InclusionProof) (head : TreeHead) :
    Bool :=
  match HexText.decode proof.leafData, proof.auditPath.mapM hexTo32,
      hexTo32 head.merkleRoot with
  | some leaf, some path, some root =>
      verifyInclusion P proof.leafIndex head.treeSize.toNat
        (hashLeaf P leaf) root path
  | _, _, _ => false

theorem mapM_hexTo32_hexDigests (path : List Digest) :
    (hexDigests path).mapM hexTo32 = some path := by
  induction path with
  | nil => rfl
  | cons digest rest ih =>
      rw [hexDigests] at ih ⊢
      rw [List.map_cons, List.mapM_cons, hexTo32_encode, ih]
      rfl

/-- The proof over some leaves verifies against a head over them. -/
theorem inclusionProofOver_verifies {leaves : List Bytes} {seq : ℕ}
    {leaf : Bytes} (hleaf : leaves[seq]? = some leaf)
    (hfits : leaves.length < UInt64.size) (key : SigningKey)
    (tsMs : UInt64) :
    ∃ proof, inclusionProofOver P leaves seq = .ok proof ∧
      proof.leafIndex = seq ∧ proof.leafData = HexText.encode leaf ∧
      proof.verifies P (treeHeadOver P key leaves tsMs) = true := by
  have hlt : seq < leaves.length := (List.getElem?_eq_some_iff.mp hleaf).1
  have hpath : inclusionProof P leaves seq =
      some (Merkle.auditPath (merkleHashing P) leaves seq) := by
    rw [inclusionProof, Merkle.inclusionProof, if_neg (by omega)]
  have hdata : leaves.getD seq [] = leaf := by
    rw [List.getD_eq_getElem?_getD, hleaf, Option.getD_some]
  unfold inclusionProofOver
  rw [hpath, hdata]
  refine ⟨_, rfl, rfl, rfl, ?_⟩
  have hsize : (UInt64.ofNat leaves.length).toNat = leaves.length :=
    UInt64.toNat_ofNat_of_lt hfits
  simp only [InclusionProof.verifies, HexText.decode_encode,
    mapM_hexTo32_hexDigests, treeHeadOver, signTreeHead, merkleRootHex,
    hexTo32_encode, hsize]
  exact Merkle.verifyInclusion_auditPath hleaf

/-- The leaves of some records. -/
def writtenLeaves (records : List RecordOut) : List Bytes :=
  records.map fun record => (HexText.decode record.hash).getD []

section Proofs

variable {P} {records : List RecordOut}

theorem Sequenced.hashedTo (hsequenced : Sequenced records) :
    HashedTo records (writtenLeaves records) := by
  unfold HashedTo writtenLeaves
  rw [List.forall₂_map_right_iff, List.forall₂_same]
  intro record hrecord
  rcases hsequenced.hashed record hrecord with ⟨leaf, hleaf⟩
  rw [hleaf, HexText.decode_encode]
  rfl

/-- A record's leaf is under its number, and its hash that leaf's text. -/
theorem Sequenced.leaf (hsequenced : Sequenced records)
    {record : RecordOut} (hrecord : record ∈ records) :
    ∃ leaf, (writtenLeaves records)[record.entry.seq]? = some leaf ∧
      HexText.encode leaf = record.hash := by
  rcases List.getElem?_of_mem hrecord with ⟨index, hindex⟩
  rcases hsequenced.hashed record hrecord with ⟨leaf, hleaf⟩
  refine ⟨leaf, ?_, hleaf.symm⟩
  rw [hsequenced.seq index record hindex, writtenLeaves, List.getElem?_map,
    hindex, Option.map_some, hleaf, HexText.decode_encode]
  rfl

/-- What a proof of a record has to say. -/
def RecordOut.ProvedBy (P : Platform) (head : TreeHead) (record : RecordOut)
    (proof : InclusionProof) : Prop :=
  proof.leafIndex = record.entry.seq ∧ proof.leafData = record.hash ∧
    proof.verifies P head = true

variable (P) in
theorem inclusionProofsOver_records (hsequenced : Sequenced records)
    (hfits : records.length < UInt64.size) (key : SigningKey)
    (tsMs : UInt64) {wanted : List RecordOut}
    (hwanted : ∀ record ∈ wanted, record ∈ records) :
    ∃ proofs,
      inclusionProofsOver P (writtenLeaves records)
          (wanted.map fun record => record.entry.seq) = .ok proofs ∧
        List.Forall₂ (RecordOut.ProvedBy P
          (treeHeadOver P key (writtenLeaves records) tsMs)) wanted proofs := by
  induction wanted with
  | nil => exact ⟨[], rfl, .nil⟩
  | cons record rest ih =>
      rcases ih fun other hother => hwanted other (by simp [hother]) with
        ⟨proofs, hproofs, hall⟩
      rcases hsequenced.leaf (hwanted record (by simp)) with
        ⟨leaf, hleaf, hhash⟩
      have hlength : (writtenLeaves records).length < UInt64.size := by
        rw [writtenLeaves, List.length_map]
        exact hfits
      rcases inclusionProofOver_verifies P hleaf hlength key tsMs with
        ⟨proof, hproof, hindex, hdata, hverifies⟩
      unfold inclusionProofsOver at hproofs ⊢
      refine ⟨proof :: proofs, ?_,
        .cons ⟨hindex, hdata.trans hhash, hverifies⟩ hall⟩
      rw [List.map_cons, List.mapM_cons, hproof, hproofs]
      rfl

end Proofs

/-! ## The answer -/

namespace Audit

/-- The page of some records, each with its value and its proof, under a head
over all of them. -/
structure Projection.Faithful (projection : Projection) (handle : String)
    (records : List RecordOut) (key : VerifyingKey) : Prop where
  subject : projection.handle = handle
  matched : List.Forall₂ (fun record found => found.1 = record.entry.seq ∧
      parseValue P (record.line P) = some found.2) (page handle records)
    projection.matched
  truncated : projection.truncated = true ↔
    maxProjectedDecisions < (recordsOf handle records).length
  proofs : List.Forall₂ (RecordOut.ProvedBy P projection.head)
    (page handle records) projection.proofs
  size : projection.head.treeSize.toNat = records.length
  signed : verifyTreeHeadSig P projection.head key = true

section Answer

variable {P} {records : List RecordOut} {handle : String}
  {clock : Option UInt64} {key : SigningKey}

theorem mem_of_mem_page {record : RecordOut}
    (hrecord : record ∈ page handle records) : record ∈ records :=
  (List.mem_filter.mp (List.mem_of_mem_take hrecord)).1

theorem matchLines_records (hsequenced : Sequenced records) :
    matchLines P handle 0 [] (records.map (RecordOut.line P)) =
      (((page handle records).map fun record =>
        (record.entry.seq, record)).mapM (shown P)).map fun matched =>
          (matched, decide (maxProjectedDecisions <
            (recordsOf handle records).length)) := by
  have habout := @about_eq handle records 0 fun index record hrecord =>
    (hsequenced.seq index record hrecord).trans (Nat.zero_add index).symm
  rw [matchLines_written P handle records 0 [] (Nat.zero_le _), habout, page,
    List.map_take]
  simp

theorem numbers_of_matched {wanted : List RecordOut}
    {matched : List (ℕ × Value)}
    (hmatched : List.Forall₂ (fun record found =>
      found.1 = record.entry.seq ∧
        parseValue P (record.line P) = some found.2) wanted matched) :
    matched.map Prod.fst = wanted.map fun record => record.entry.seq := by
  induction hmatched with
  | nil => rfl
  | cons hfirst _ ih => rw [List.map_cons, List.map_cons, hfirst.1, ih]

theorem exists_matched_iff {wanted : List RecordOut}
    (hword : ∀ record ∈ wanted, record.entry.seq < 2 ^ 64) :
    (∃ matched : List (ℕ × Value), List.Forall₂ (fun record found =>
      found.1 = record.entry.seq ∧
        parseValue P (record.line P) = some found.2) wanted matched) ↔
      ∀ record ∈ wanted, record.entry.LineWithinLimit := by
  induction wanted with
  | nil =>
      refine iff_of_true ⟨[], .nil⟩ ?_
      intro record hrecord
      cases hrecord
  | cons record rest ih =>
      have hrest := ih fun other hother => hword other (by simp [hother])
      have hvalue := parseValue_line_isSome_iff P record
        (hword record (by simp))
      rw [List.forall_mem_cons, ← hrest, ← hvalue,
        Option.isSome_iff_exists]
      constructor
      · rintro ⟨matched, hmatched⟩
        cases hmatched with
        | cons hfirst hothers => exact ⟨⟨_, hfirst.2⟩, _, hothers⟩
      · rintro ⟨⟨value, hfirst⟩, others, hothers⟩
        exact ⟨(record.entry.seq, value) :: others,
          .cons ⟨rfl, hfirst⟩ hothers⟩

/-- What a projection of a written prefix is made of. -/
theorem project_eq_ok_iff (hsequenced : Sequenced records)
    {projection : Projection} :
    project P (.ok (records.map (RecordOut.line P))) handle clock key =
        .ok projection ↔
      ∃ matched proofs nowMs,
        List.Forall₂ (fun record found => found.1 = record.entry.seq ∧
          parseValue P (record.line P) = some found.2) (page handle records)
            matched ∧
        inclusionProofsOver P (writtenLeaves records)
          (matched.map Prod.fst) = .ok proofs ∧
        signingTime clock = .ok nowMs ∧
        projection =
          { handle
            head := treeHeadOver P key (writtenLeaves records) nowMs
            matched
            proofs
            truncated := decide (maxProjectedDecisions <
              (recordsOf handle records).length) } := by
  have hleaves := leavesFromLines_written P hsequenced.hashedTo
  unfold project
  simp only [Except.mapError, bind, Except.bind, hleaves,
    matchLines_records hsequenced, ← mapM_shown_eq_ok_iff]
  cases ((page handle records).map fun record =>
      (record.entry.seq, record)).mapM (shown P) with
  | error error => simp [Except.map]
  | ok matched =>
      simp only [Except.map, Except.ok.injEq, exists_and_left, exists_eq_left']
      cases inclusionProofsOver P (writtenLeaves records)
          (matched.map Prod.fst) with
      | error error => simp
      | ok proofs =>
          cases signingTime clock with
          | error error => simp
          | ok nowMs => simp [pure, Except.pure, eq_comm]

/-- A written prefix is projected when the clock has a time and each record of
its page a value. -/
theorem project_records (hsequenced : Sequenced records)
    (hfits : records.length < UInt64.size) :
    (∃ projection, project P (.ok (records.map (RecordOut.line P))) handle
        clock key = .ok projection) ↔
      clock.isSome ∧ ∀ record ∈ page handle records,
        record.entry.LineWithinLimit := by
  have hword : ∀ record ∈ page handle records,
      record.entry.seq < 2 ^ 64 := by
    intro record hrecord
    rcases List.getElem?_of_mem (mem_of_mem_page hrecord) with ⟨index, hindex⟩
    rw [hsequenced.seq index record hindex]
    exact (List.getElem?_eq_some_iff.mp hindex).1.trans hfits
  rw [← exists_matched_iff hword]
  constructor
  · rintro ⟨projection, hproject⟩
    rcases (project_eq_ok_iff hsequenced).mp hproject with
      ⟨matched, _, _, hmatched, _, htime, _⟩
    refine ⟨?_, matched, hmatched⟩
    cases clock with
    | none => cases htime
    | some secs => rfl
  · rintro ⟨hclock, matched, hmatched⟩
    rcases Option.isSome_iff_exists.mp hclock with ⟨secs, rfl⟩
    rcases inclusionProofsOver_records P hsequenced hfits key 0
      (fun record => mem_of_mem_page) with ⟨proofs, hproofs, _⟩
    rw [← numbers_of_matched hmatched] at hproofs
    exact ⟨_, (project_eq_ok_iff hsequenced).mpr
      ⟨matched, proofs, _, hmatched, hproofs, rfl, rfl⟩⟩

theorem project_faithful (hsequenced : Sequenced records)
    (hfits : records.length < UInt64.size) {projection : Projection}
    (hproject : project P (.ok (records.map (RecordOut.line P))) handle clock
      key = .ok projection) :
    projection.Faithful P handle records (P.verifyingKey key) := by
  rcases (project_eq_ok_iff hsequenced).mp hproject with
    ⟨matched, proofs, nowMs, hmatched, hproofs, _, rfl⟩
  rcases inclusionProofsOver_records P hsequenced hfits key nowMs
    (fun record => mem_of_mem_page) with ⟨found, hfound, hproved⟩
  rw [numbers_of_matched hmatched, hfound] at hproofs
  cases hproofs
  constructor
  · rfl
  · exact hmatched
  · exact decide_eq_true_iff
  · exact hproved
  · simp only [treeHeadOver, signTreeHead, writtenLeaves, List.length_map]
    exact UInt64.toNat_ofNat_of_lt hfits
  · exact verifyTreeHeadSig_signTreeHead P key _ _ _

end Answer

end Audit

/-! ## Between the two locks -/

/-- `project`: the prefix is the handle's at the first lock, its lines are read
while the ledger is written, and the head is signed by the handle as it is at
the second. -/
def Audit.projectBetween (path : String) (first second : Session) (turns : ℕ)
    (reads : PrefixReads) (handle : String) (clock : Option UInt64) :
    Option (Except Audit.HeadError Audit.Projection) :=
  ((first.ledger.takePrefix path).lines turns reads).map fun lines =>
    Audit.project P lines handle clock second.ledger.key

/-- A prefix of written records gives their lines. -/
theorem Prefix.Gives.written {taken : Prefix} {path : String}
    {records : List RecordOut} {reads : PrefixReads}
    (hgives : taken.Gives path (records.map (recordLine P)) reads) :
    ∃ bound, ∀ turns, bound ≤ turns →
      taken.lines turns reads =
        some (.ok (records.map (RecordOut.line P))) := by
  rcases hgives with ⟨texts, htexts, _, bound, hbound⟩
  rcases texts_of_written P htexts with ⟨rfl, hfilter⟩
  rw [hfilter] at hbound
  exact ⟨bound, hbound⟩

theorem recordsOf_lines (handle : String) (records : List RecordOut) :
    (Audit.recordsOf handle records).map (RecordOut.line P) =
      (records.map (RecordOut.line P)).filter fun line =>
        decide (Audit.recordedHandle P line = some handle) := by
  rw [List.filter_map]
  simp only [Audit.recordsOf, Function.comp_def, Audit.recordedHandle_line]

theorem map_line_of_map_recordLine {records others : List RecordOut}
    (hsame : records.map (recordLine P) = others.map (recordLine P)) :
    records.map (RecordOut.line P) = others.map (RecordOut.line P) := by
  have htexts := congrArg (List.map (decodeLine "")) hsame
  rw [map_decodeLine_recordLine, map_decodeLine_recordLine] at htexts
  exact List.map_injective_iff.mpr (fun _ _ => Except.ok.inj) htexts

/-! ## A log of three records, two of them under one handle -/

/-- An entry about a party. -/
def sampleAbout (context : Value) : Entry :=
  { sampleEntry context with decisionSubject := some ⟨"case:7", none, none⟩ }

def auditedLog : List Operation :=
  [.open (sampleKey 1) [] none none, .append (sampleAbout .null) none,
    .append (sampleEntry .null) none, .append (sampleAbout .null) none]

def auditedWorld : World :=
  World.after samplePlatform .unix "ledger" none auditedLog

def auditedFile : Bytes := auditedWorld.file.get rfl

def auditedSession : Session := auditedWorld.session.get rfl

theorem auditedWorld_eq :
    auditedWorld =
      { file := some auditedFile, session := some auditedSession } :=
  congrArg₂ World.mk (Option.some_get _).symm (Option.some_get _).symm

/-- The heads its handle goes through. -/
def auditedEmpty : Ledger :=
  Ledger.opened (sampleKey 1) [sampleKey 1] none 0 []

def auditedFirst : Ledger :=
  auditedEmpty.advance samplePlatform (sampleAbout .null)

def auditedSecond : Ledger :=
  auditedFirst.advance samplePlatform (sampleEntry .null)

def auditedRecords : List RecordOut :=
  [auditedEmpty.sealNext samplePlatform (sampleAbout .null),
    auditedFirst.sealNext samplePlatform (sampleEntry .null),
    auditedSecond.sealNext samplePlatform (sampleAbout .null)]

theorem lines_auditedSession :
    auditedSession.lines =
      auditedRecords.map (recordLine samplePlatform) := rfl

/-- A record lands between the two locks. -/
def auditedLater : List Operation :=
  [.append (sampleAbout .null) none]

def auditedTail : Bytes :=
  auditedFile ++ (recordLine samplePlatform
    (auditedSession.ledger.sealNext samplePlatform (sampleAbout .null)) ++
      [newline])

/-- Records with the same lines have pages of one length, and lines within the
limit if the others have. -/
theorem page_of_same_lines {records others : List RecordOut}
    (hsame : records.map (RecordOut.line P) =
      others.map (RecordOut.line P)) (handle : String) :
    (Audit.page handle records).length =
      (Audit.page handle others).length := by
  have hfound := congrArg List.length (recordsOf_lines P handle records)
  rw [hsame, ← recordsOf_lines P handle others, List.length_map,
    List.length_map] at hfound
  simp only [Audit.page, List.length_take, hfound]

theorem lineWithinLimit_of_same_lines {records others : List RecordOut}
    (hsame : records.map (RecordOut.line P) =
      others.map (RecordOut.line P))
    (hseq : ∀ record ∈ records, record.entry.seq < 2 ^ 64)
    (hothers : ∀ other ∈ others, other.entry.seq < 2 ^ 64 ∧
      other.entry.LineWithinLimit) :
    ∀ record ∈ records, record.entry.LineWithinLimit := by
  intro record hrecord
  have hline := List.mem_map_of_mem (f := RecordOut.line P) hrecord
  rw [hsame] at hline
  rcases List.mem_map.mp hline with ⟨other, hother, heq⟩
  rw [← parseValue_line_isSome_iff P record (hseq record hrecord), ← heq]
  exact (parseValue_line_isSome_iff P other (hothers other hother).1).mpr
    (hothers other hother).2

def deepLog : List Operation :=
  [.open (sampleKey 1) [] none none,
    .append (sampleAbout (nestedArrays 126)) none]

def deepWorld : World :=
  World.after samplePlatform .unix "ledger" none deepLog

def deepFile : Bytes := deepWorld.file.get rfl

def deepSession : Session := deepWorld.session.get rfl

def deepRecord : RecordOut :=
  auditedEmpty.sealNext samplePlatform (sampleAbout (nestedArrays 126))

end Decern

import Decern.LedgerRecord
import Decern.LineText
import Mathlib.Tactic

/-!
# The lines of a ledger's files

A ledger's bytes are one file, or several in order.  Its prefix is every line
that ends in a newline; a torn tail is what follows the last newline of the
last file, found by scanning that file backwards in chunks.
-/

namespace Decern

open ByteText (Bytes newline carriageReturn)
open LineText (cut rposition terminatedPrefix)

/-- One file of a ledger. -/
structure LedgerFile where
  path : String
  content : Bytes

/-! ## Lines -/

def stripReturn (line : Bytes) : Bytes :=
  if line.getLast? = some carriageReturn then line.dropLast else line

/-- One item of `BufRead::lines`. -/
def decodeLine (path : String) (line : Bytes) : Except LedgerError String :=
  match ByteText.decode (stripReturn line) with
  | some text => .ok text
  | none => .error (.io path "stream did not contain valid UTF-8")

theorem decodeLine_encode (path : String) {text : String}
    (htext : (ByteText.encode text).getLast? ≠ some carriageReturn) :
    decodeLine path (ByteText.encode text) = .ok text := by
  rw [decodeLine, stripReturn, if_neg htext, ByteText.decode_encode]

/-- The lines of a file; what follows its last newline is a line too. -/
def physicalLines (content : Bytes) : List Bytes :=
  if (cut newline content).2 = [] then (cut newline content).1
  else (cut newline content).1 ++ [(cut newline content).2]

/-- The lines of all files, the last one read up to a limit. -/
def eachLine (lastLimit : Option ℕ) :
    List LedgerFile → List (Except LedgerError String)
  | [] => []
  | [file] =>
      let content := match lastLimit with
        | some limit => file.content.take limit
        | none => file.content
      (physicalLines content).map (decodeLine file.path)
  | file :: next :: rest =>
      (physicalLines file.content).map (decodeLine file.path) ++
        eachLine lastLimit (next :: rest)

/-- `ChainedLines` is done after the first line it cannot read. -/
def untilUnread :
    List (Except LedgerError String) → List (Except LedgerError String)
  | [] => []
  | .ok line :: rest => .ok line :: untilUnread rest
  | .error error :: _ => [.error error]

def chainedLinesBounded (lastLimit : Option ℕ) (files : List LedgerFile) :
    List (Except LedgerError String) :=
  untilUnread (eachLine lastLimit files)

def chainedLines (files : List LedgerFile) :
    List (Except LedgerError String) :=
  chainedLinesBounded none files

@[simp] theorem untilUnread_map_ok_append (texts : List String)
    (rest : List (Except LedgerError String)) :
    untilUnread (texts.map Except.ok ++ rest) =
      texts.map Except.ok ++ untilUnread rest := by
  induction texts with
  | nil => rfl
  | cons text texts ih => simp only [List.map_cons, List.cons_append,
      untilUnread, ih]

@[simp] theorem untilUnread_map_ok (texts : List String) :
    untilUnread (texts.map Except.ok) = texts.map Except.ok := by
  simpa [untilUnread] using untilUnread_map_ok_append texts []

/-! ## The torn tail -/

/-- How many bytes the backward scan reads at a time. -/
def chunk : ℕ := 64 * 1024

/-- The offset past the last newline before `pos`, or zero. -/
def scanChunks (content : Bytes) (pos : ℕ) : ℕ :=
  if _hpos : pos = 0 then 0
  else
    let readLen := min chunk pos
    let start := pos - readLen
    match rposition (· == newline) ((content.drop start).take readLen) with
    | some index => start + index + 1
    | none => scanChunks content start
termination_by pos
decreasing_by
  simp only [chunk]
  omega

/-- Where the file must be cut to drop an unterminated last line. -/
def scanTornTail (content : Bytes) : Option ℕ :=
  if content = [] then none
  else if content.getLast? = some newline then none
  else some (scanChunks content content.length)

theorem scanChunks_eq (content : Bytes) (pos : ℕ)
    (hpos : pos ≤ content.length)
    (hafter : newline ∉ content.drop pos) :
    scanChunks content pos = (terminatedPrefix newline content).length := by
  induction pos using Nat.strong_induction_on with
  | _ pos ih =>
      rw [scanChunks]
      split
      case isTrue hzero =>
        subst hzero
        rw [List.drop_zero] at hafter
        rw [LineText.terminatedPrefix_eq_nil newline hafter]
        rfl
      case isFalse hne =>
        set readLen := min chunk pos with hreadLen
        set start := pos - readLen with hstart
        have hpositive : 0 < readLen := by
          simp only [hreadLen, chunk]
          omega
        have hle : readLen ≤ pos := by omega
        have hslice : content.drop start =
            (content.drop start).take readLen ++ content.drop pos := by
          calc
            content.drop start =
                (content.drop start).take readLen ++
                  (content.drop start).drop readLen :=
              (List.take_append_drop readLen _).symm
            _ = _ := by
              rw [List.drop_drop]
              congr 2
              omega
        have hwhole : content = content.take start ++ content.drop start :=
          (List.take_append_drop start content).symm
        simp only
        split
        case h_1 index hindex =>
          obtain ⟨before, after, hsplit, hlength, hnot⟩ :=
            LineText.split_of_rposition_eq_some newline hindex
          have hcontent : content = (content.take start ++ before) ++
              newline :: (after ++ content.drop pos) := by
            rw [hsplit] at hslice
            calc
              content = content.take start ++ content.drop start := hwhole
              _ = content.take start ++
                  ((before ++ newline :: after) ++ content.drop pos) := by
                rw [← hslice]
              _ = _ := by simp
          have htail : newline ∉ after ++ content.drop pos := by
            simp [hnot, hafter]
          have hterminated : terminatedPrefix newline
              ((content.take start ++ before) ++
                newline :: (after ++ content.drop pos)) =
              (content.take start ++ before) ++ [newline] :=
            LineText.terminatedPrefix_append_cons newline htail
          rw [← hcontent] at hterminated
          have htake : (content.take start).length = start := by
            rw [List.length_take]
            omega
          rw [hterminated, List.length_append, List.length_append, htake,
            hlength]
          rfl
        case h_2 hindex =>
          have hnot := LineText.notMem_of_rposition_eq_none newline hindex
          refine ih start (by omega) (by omega) fun hmem => ?_
          rw [hslice, List.mem_append] at hmem
          rcases hmem with hbefore | hrest
          · exact hnot hbefore
          · exact hafter hrest

/-- The scan finds exactly the end of the terminated prefix. -/
theorem scanTornTail_eq (content : Bytes) :
    scanTornTail content =
      if (cut newline content).2 = [] then none
      else some (terminatedPrefix newline content).length := by
  unfold scanTornTail
  split
  case isTrue hnil => simp [hnil]
  case isFalse hne =>
    have hlast : content.getLast? = some newline ↔
        (cut newline content).2 = [] := by
      constructor
      · intro hlast
        obtain ⟨init, rfl⟩ := List.getLast?_eq_some_iff.mp hlast
        rw [← LineText.terminatedPrefix_eq_self_iff,
          LineText.terminatedPrefix_append_cons newline (by simp)]
      · intro htail
        have hself :=
          (LineText.terminatedPrefix_eq_self_iff newline content).mpr htail
        rw [← hself]
        cases hlines : (cut newline content).1 using List.reverseRecOn with
        | nil =>
            rw [terminatedPrefix, hlines] at hself
            exact absurd hself.symm hne
        | append_singleton lines line =>
            rw [terminatedPrefix, hlines]
            simp
    split
    case isTrue hnewline => rw [if_pos (hlast.mp hnewline)]
    case isFalse hnewline =>
      rw [if_neg fun htail => hnewline (hlast.mpr htail),
        scanChunks_eq content content.length (Nat.le_refl _) (by simp)]

/-! ## The prefix -/

/-- Every terminated line, and where a torn tail starts in the last file. -/
def prefixLines (files : List LedgerFile) :
    List (Except LedgerError String) × Option ℕ :=
  let torn := match files.getLast? with
    | some file => scanTornTail file.content
    | none => none
  (chainedLinesBounded torn files, torn)

theorem physicalLines_of_tail_eq_nil {content : Bytes}
    (htail : (cut newline content).2 = []) :
    physicalLines content = (cut newline content).1 := by
  rw [physicalLines, if_pos htail]

/-- A single file's lines up to its torn tail are its complete ones. -/
theorem eachLine_single (path : String) (content : Bytes) :
    eachLine (scanTornTail content) [⟨path, content⟩] =
      (cut newline content).1.map (decodeLine path) := by
  rw [scanTornTail_eq]
  split
  case isTrue htail =>
    rw [eachLine, physicalLines_of_tail_eq_nil htail]
  case isFalse htail =>
    have htake : content.take (terminatedPrefix newline content).length =
        terminatedPrefix newline content :=
      (List.prefix_iff_eq_take.mp
        (LineText.terminatedPrefix_isPrefix newline content)).symm
    simp only [eachLine, htake]
    rw [physicalLines_of_tail_eq_nil (by simp)]
    simp

theorem prefixLines_single (path : String) (content : Bytes) :
    prefixLines [⟨path, content⟩] =
      (untilUnread ((cut newline content).1.map (decodeLine path)),
        scanTornTail content) := by
  rw [prefixLines]
  simp only [List.getLast?_singleton, chainedLinesBounded, eachLine_single]

end Decern

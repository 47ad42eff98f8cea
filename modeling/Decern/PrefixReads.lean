import Decern.ReadWindows
import Decern.SegmentManifest
import Mathlib.Tactic

/-!
# Reading a prefix while its ledger grows

A prefix is a location and a count.  Reading it asks for the manifest, for the
files it names, for the last file's end and then for lines, each at a moment of
its own; between two moments the files may have grown.
-/

namespace Decern

open ByteText (Bytes newline)
open LineText (cut joined rposition terminatedPrefix)

/-! ## What each read finds -/

/-- The files at one moment. -/
abbrev Files := String → Option Bytes

/-- Every file that was there is there, with its bytes at its start. -/
def Files.Grow (before after : Files) : Prop :=
  ∀ path content, before path = some content →
    ∃ more, after path = some (content ++ more)

theorem Files.Grow.refl (files : Files) : files.Grow files :=
  fun _ content hcontent => ⟨[], by rw [List.append_nil]; exact hcontent⟩

theorem Files.Grow.trans {first second third : Files}
    (hleft : first.Grow second) (hright : second.Grow third) :
    first.Grow third := by
  intro path content hcontent
  obtain ⟨more, hmore⟩ := hleft path content hcontent
  obtain ⟨rest, hrest⟩ := hright path _ hmore
  exact ⟨more ++ rest, by rw [hrest, List.append_assoc]⟩

/-- Where a ledger's records are. -/
inductive Place where
  | single (path : String)
  | segmented
  deriving DecidableEq, Repr

structure Prefix where
  location : Place
  count : ℕ
  deriving DecidableEq, Repr

/-- What the reads of one call find: the manifest, whether each segment is
there, the last file's length, its last byte and each chunk of the backward
scan, by where the chunk ends, and each read of a line. -/
structure PrefixReads where
  listed : Directory
  present : ℕ → Files
  length : Files
  last : Files
  chunk : ℕ → Files
  line : ℕ → Files

/-! ## The reads -/

/-- The manifest's segments that are there, each asked for in turn. -/
def presentPaths (present : ℕ → Files) (index : ℕ) :
    List SegmentMeta → Except LedgerError (List String)
  | [] => .ok []
  | segment :: rest =>
      match present index segment.file with
      | none =>
          .error (.tamper segment.startSeq ("segment " ++ segment.file ++
            " is listed in the manifest but missing from disk (tail- or " ++
            "mid-truncation, or a corrupted deployment)"))
      | some _ =>
          (presentPaths present (index + 1) rest).map (segment.file :: ·)

def PrefixReads.resolvedPaths (reads : PrefixReads) :
    Place → Except LedgerError (List String)
  | .single path => .ok [path]
  | .segmented =>
      match loadManifest none reads.listed with
      | .error error => .error error
      | .ok none =>
          .error (.io "." ("segmented ledger directory has no manifest.json " ++
            "(not a valid segmented ledger — use Ledger::open_segmented to " ++
            "create one)"))
      | .ok (some manifest) => presentPaths reads.present 0 manifest.segments

/-- The backward scan, each chunk found as it is when it is read. -/
def scanChunksAt (content : ℕ → Bytes) (pos : ℕ) : ℕ :=
  if _hpos : pos = 0 then 0
  else
    let readLen := min chunk pos
    let start := pos - readLen
    match rposition (· == newline)
        (((content pos).drop start).take readLen) with
    | some index => start + index + 1
    | none => scanChunksAt content start
termination_by pos
decreasing_by
  simp only [chunk]
  omega

def PrefixReads.tornTail (reads : PrefixReads) (path : String) : Option ℕ :=
  match reads.length path with
  | none => none
  | some content =>
      if content = [] then none
      else if ((reads.last path).getD []).getLast? = some newline then none
      else
        some (scanChunksAt (fun pos => (reads.chunk pos path).getD [])
          content.length)

/-- The line that starts at an offset, and where the next one does. -/
def lineAt (content : Bytes) (pos : ℕ) : Option (Bytes × ℕ) :=
  match content.drop pos with
  | [] => none
  | rest =>
      let line := rest.takeWhile (· != newline)
      some (line, pos + min (line.length + 1) rest.length)

/-- The files still to open, and the one open: its bound and the offset
reached. -/
structure ChainedLines where
  paths : List String
  current : Option (String × Option ℕ × ℕ)

def bounded (limit : Option ℕ) (content : Bytes) : Bytes :=
  match limit with
  | some limit => content.take limit
  | none => content

/-- What one turn of the line source gives: a line or a failure, another
file, or the end. -/
inductive Turn where
  | line (line : Except LedgerError String) (rest : ChainedLines)
  | moved (rest : ChainedLines)
  | done

def ChainedLines.turn (lastLimit : Option ℕ) (files : Files)
    (lines : ChainedLines) : Turn :=
  match lines.current with
  | some (path, limit, pos) =>
      match lineAt (bounded limit ((files path).getD [])) pos with
      | some (line, next) =>
          .line (decodeLine path line)
            { lines with current := some (path, limit, next) }
      | none => .moved { lines with current := none }
  | none =>
      match lines.paths with
      | [] => .done
      | path :: rest =>
          match files path with
          | none =>
              .line (.error (.io path "No such file or directory"))
                { paths := rest, current := none }
          | some _ =>
              .moved
                { paths := rest
                  current := some
                    (path, if rest = [] then lastLimit else none, 0) }

/-- The loop of `Prefix::lines`; nothing when the turns allowed run out. -/
def collectPrefix (count : ℕ) (lastLimit : Option ℕ) (line : ℕ → Files) :
    ℕ → ℕ → ChainedLines → List String →
      Option (Except LedgerError (List String))
  | 0, _, _, _ => none
  | turns + 1, moment, lines, out =>
      match lines.turn lastLimit (line moment) with
      | .done =>
          some (if out.length < count then
              .error (.tamper out.length (toString out.length ++
                " records on disk where " ++ toString count ++
                " were written"))
            else .ok out)
      | .moved rest =>
          collectPrefix count lastLimit line turns (moment + 1) rest out
      | .line line' rest =>
          if out.length = count then some (.ok out)
          else
            match line' with
            | .error error => some (.error error)
            | .ok text =>
                collectPrefix count lastLimit line turns (moment + 1) rest
                  (if RustText.isBlank text then out else out ++ [text])

def Prefix.lines (wanted : Prefix) (turns : ℕ) (reads : PrefixReads) :
    Option (Except LedgerError (List String)) :=
  match reads.resolvedPaths wanted.location with
  | .error error => some (.error error)
  | .ok paths =>
      collectPrefix wanted.count (paths.getLast?.bind reads.tornTail)
        reads.line turns 0 { paths, current := none } []

/-! ## A stored region -/

/-- Files and the lines stored in each. -/
abbrev Region := List (String × List Bytes)

/-- Files that hold the region's lines, each file but the last complete. -/
def Shows : Region → Files → Prop
  | [], _ => True
  | [(path, lines)], files =>
      ∃ more, files path = some (joined newline lines ++ more)
  | (path, lines) :: next :: rest, files =>
      files path = some (joined newline lines) ∧ Shows (next :: rest) files

/-- The region's lines as a reader decodes them. -/
def regionLines (stored : Region) : List (Except LedgerError String) :=
  stored.flatMap fun file => file.2.map (decodeLine file.1)

section Lines

variable {content : Bytes} {pos : ℕ}

theorem lineAt_cons {done : List Bytes} {line : Bytes} {rest : Bytes}
    (hline : newline ∉ line) :
    lineAt (joined newline done ++ (line ++ newline :: rest))
        (joined newline done).length =
      some (line, (joined newline (done ++ [line])).length) := by
  have hdrop : (joined newline done ++ (line ++ newline :: rest)).drop
      (joined newline done).length = line ++ newline :: rest :=
    List.drop_left
  have htake : (line ++ newline :: rest).takeWhile (· != newline) = line := by
    rw [List.takeWhile_append_of_pos]
    · simp
    · intro symbol hsymbol
      have hne : symbol ≠ newline := by
        rintro rfl
        exact hline hsymbol
      simpa using hne
  unfold lineAt
  rw [hdrop]
  cases hwhole : line ++ newline :: rest with
  | nil => simp at hwhole
  | cons first others =>
      simp only [← hwhole, htake]
      congr 2
      rw [LineText.joined_append]
      simp only [List.length_append, List.length_cons, joined]
      simp

theorem lineAt_end (content : Bytes) :
    lineAt content content.length = none := by
  simp [lineAt]

end Lines

/-! ## The end of a growing file -/

theorem scanChunksAt_eq {content : Bytes} {views : ℕ → Bytes}
    (hviews : ∀ pos, ∃ more, views pos = content ++ more) (pos : ℕ)
    (hpos : pos ≤ content.length) :
    scanChunksAt views pos = scanChunks content pos := by
  induction pos using Nat.strong_induction_on with
  | _ pos ih =>
      rw [scanChunksAt, scanChunks]
      by_cases hzero : pos = 0
      · rw [dif_pos hzero, dif_pos hzero]
      · rw [dif_neg hzero, dif_neg hzero]
        obtain ⟨more, hmore⟩ := hviews pos
        have hslice : ((views pos).drop (pos - min chunk pos)).take
              (min chunk pos) =
            (content.drop (pos - min chunk pos)).take (min chunk pos) := by
          rw [hmore, List.drop_append_of_le_length (by omega),
            List.take_append_of_le_length (by
              rw [List.length_drop]
              omega)]
        have hchunk : 0 < min chunk pos := by
          simp only [chunk]
          omega
        have hrest := ih (pos - min chunk pos) (by omega) (by omega)
        simp only [hslice]
        cases rposition (· == newline)
            ((content.drop (pos - min chunk pos)).take (min chunk pos)) with
        | none => exact hrest
        | some index => rfl

/-- A scan of a file that only grows bounds it past every line it had. -/
theorem PrefixReads.tornTail_le {reads : PrefixReads} {path : String}
    {lines : List Bytes} {more : Bytes} {limit : ℕ}
    (hlines : ∀ line ∈ lines, newline ∉ line)
    (hlength : reads.length path = some (joined newline lines ++ more))
    (hchunk : ∀ pos, reads.length.Grow (reads.chunk pos))
    (htorn : reads.tornTail path = some limit) :
    (joined newline lines).length ≤ limit := by
  unfold PrefixReads.tornTail at htorn
  rw [hlength] at htorn
  simp only at htorn
  split_ifs at htorn
  have hviews : ∀ pos, ∃ rest, (reads.chunk pos path).getD [] =
      joined newline lines ++ more ++ rest := by
    intro pos
    obtain ⟨rest, hrest⟩ := hchunk pos path _ hlength
    exact ⟨rest, by rw [hrest, Option.getD_some]⟩
  rw [scanChunksAt_eq hviews _ (Nat.le_refl _),
    scanChunks_eq _ _ (Nat.le_refl _) (by simp)] at htorn
  have hwhole : joined newline lines =
      terminatedPrefix newline (joined newline lines) := by
    rw [terminatedPrefix, LineText.cut_joined newline hlines]
  have hgrows := (LineText.terminatedPrefix_mono newline
    (List.prefix_append (joined newline lines) more)).length_le
  rw [← hwhole] at hgrows
  rw [← Option.some.inj htorn]
  exact hgrows

/-! ## Lines of a stored region -/

section Regions

variable {path : String} {lines : List Bytes} {rest region later : Region}
  {files : Files}

theorem regionLines_cons :
    regionLines ((path, lines) :: rest) =
      lines.map (decodeLine path) ++ regionLines rest := rfl

theorem regionLines_append (region rest : Region) :
    regionLines (region ++ rest) = regionLines region ++ regionLines rest := by
  simp [regionLines]

/-- Any file of a shown region starts with its lines. -/
theorem Shows.first (hshows : Shows ((path, lines) :: rest) files) :
    ∃ more, files path = some (joined newline lines ++ more) ∧
      (rest ≠ [] → more = []) := by
  cases rest with
  | nil =>
      rcases hshows with ⟨more, hmore⟩
      exact ⟨more, hmore, fun hne => absurd rfl hne⟩
  | cons next rest =>
      exact ⟨[], by rw [List.append_nil]; exact hshows.1, fun _ => rfl⟩

theorem Shows.tail (hshows : Shows ((path, lines) :: rest) files) :
    Shows rest files := by
  cases rest with
  | nil => trivial
  | cons next rest => exact hshows.2

theorem shows_append (hne : rest ≠ []) :
    Shows (region ++ rest) files ↔
      (∀ file ∈ region, files file.1 = some (joined newline file.2)) ∧
        Shows rest files := by
  induction region with
  | nil => simp
  | cons file region ih =>
      rcases file with ⟨path, lines⟩
      cases hwhole : region ++ rest with
      | nil => exact absurd (List.append_eq_nil_iff.mp hwhole).2 hne
      | cons next others =>
          rw [List.cons_append, hwhole, Shows, ← hwhole, ih,
            List.forall_mem_cons, and_assoc]

/-- The same files, the last one with more lines and others after it. -/
def Region.Onto (region later : Region) : Prop :=
  ∃ init path lines more rest,
    region = init ++ [(path, lines)] ∧
      later = init ++ (path, lines ++ more) :: rest

namespace Region.Onto

theorem refl (hne : region ≠ []) : Region.Onto region region := by
  rcases List.eq_nil_or_concat' region with rfl | ⟨init, ⟨path, lines⟩, rfl⟩
  · exact absurd rfl hne
  · refine ⟨init, path, lines, [], [], ?_, ?_⟩ <;> simp

theorem trans {last : Region} (hfirst : Region.Onto region later)
    (hsecond : Region.Onto later last) : Region.Onto region last := by
  rcases hfirst with ⟨init, path, lines, more, rest, rfl, rfl⟩
  rcases hsecond with ⟨init', path', lines', more', rest', hlater, rfl⟩
  rcases List.eq_nil_or_concat' rest with rfl | ⟨others, ⟨name, held⟩, rfl⟩
  · rcases List.append_inj' hlater rfl with ⟨rfl, hlast⟩
    cases hlast
    exact ⟨init, path, lines, more ++ more', rest', rfl, by simp⟩
  · have hsplit : (init ++ (path, lines ++ more) :: others) ++ [(name, held)] =
        init' ++ [(path', lines')] := by
      rw [← hlater]
      simp
    rcases List.append_inj' hsplit rfl with ⟨rfl, _⟩
    exact ⟨init, path, lines, more, others ++ (path', lines' ++ more') :: rest',
      rfl, by simp⟩

theorem shows (honto : Region.Onto region later) (hshows : Shows later files) :
    Shows region files := by
  rcases honto with ⟨init, path, lines, more, rest, rfl, rfl⟩
  rcases (shows_append (by simp)).mp hshows with ⟨hinit, hrest⟩
  rw [shows_append (by simp)]
  refine ⟨hinit, ?_⟩
  rcases hrest.first with ⟨left, hleft, _⟩
  exact ⟨joined newline more ++ left, by
    rw [hleft, LineText.joined_append, List.append_assoc]⟩

theorem regionLines (honto : Region.Onto region later) :
    Decern.regionLines region <+: Decern.regionLines later := by
  rcases honto with ⟨init, path, lines, more, rest, rfl, rfl⟩
  rw [regionLines_append, regionLines_append, regionLines_cons,
    regionLines_cons]
  refine ⟨more.map (decodeLine path) ++ Decern.regionLines rest, ?_⟩
  simp [Decern.regionLines]

end Region.Onto

end Regions

/-! ## Reading a region that grows -/

section Reading

variable {count : ℕ} {lastLimit : Option ℕ} {line : ℕ → Files}

/-- The limit of the file read now. -/
def currentLimit (lastLimit : Option ℕ) (rest : Region) : Option ℕ :=
  if rest.map Prod.fst = [] then lastLimit else none

/-- What a bounded view of a file shows of the lines stored in it. -/
theorem bounded_stored {lines : List Bytes} (more : Bytes)
    {limit : Option ℕ}
    (hlimit : ∀ bound, limit = some bound →
      (joined newline lines).length ≤ bound) :
    ∃ left, bounded limit (joined newline lines ++ more) =
        joined newline lines ++ left ∧ (more = [] → left = []) := by
  cases limit with
  | none => exact ⟨more, rfl, id⟩
  | some bound =>
      refine ⟨more.take (bound - (joined newline lines).length), ?_, ?_⟩
      · rw [bounded, List.take_append, List.take_of_length_le (hlimit _ rfl)]
      · rintro rfl
        exact List.take_nil

/-- The bound on the last file leaves its stored lines. -/
def Leaves (lastLimit : Option ℕ) (region : Region) : Prop :=
  ∀ last ∈ region.getLast?, ∀ bound, lastLimit = some bound →
    (joined newline last.2).length ≤ bound

theorem Leaves.current {path : String} {lines : List Bytes} {rest : Region}
    (hleaves : Leaves lastLimit ((path, lines) :: rest)) :
    ∀ bound, currentLimit lastLimit rest = some bound →
      (joined newline lines).length ≤ bound := by
  intro bound hbound
  unfold currentLimit at hbound
  cases rest with
  | nil => exact hleaves (path, lines) (by simp) bound (by simpa using hbound)
  | cons next rest => simp at hbound

theorem Leaves.tail {file next : String × List Bytes} {rest : Region}
    (hleaves : Leaves lastLimit (file :: next :: rest)) :
    Leaves lastLimit (next :: rest) := by
  intro last hlast
  exact hleaves last (by rwa [List.getLast?_cons_cons])

variable (count lastLimit line) in
/-- From here the records left to collect are found: `todo` in the file read
now, which starts with `done`, and those of `rest`. -/
def Collects (rest : Region) (path : String) (done todo : List Bytes) :
    Prop :=
  ∀ (texts : List String) (others : List (Except LedgerError String))
    (out : List String) (turns moment : ℕ),
    todo.map (decodeLine path) ++ regionLines rest =
      texts.map Except.ok ++ others →
    count = out.length + (texts.filter notBlank).length →
    todo.length + (regionLines rest).length + 2 * rest.length + 2 ≤ turns →
    collectPrefix count lastLimit line turns moment
        { paths := rest.map Prod.fst
          current := some (path, currentLimit lastLimit rest,
            (joined newline done).length) } out =
      some (.ok (out ++ texts.filter notBlank))

variable {path : String} {done todo : List Bytes} {rest : Region}

theorem Collects.cons {stored : Bytes}
    (hnext : Collects count lastLimit line rest path (done ++ [stored]) todo)
    (hstored : newline ∉ stored)
    (hshows : ∀ moment,
      Shows ((path, done ++ stored :: todo) :: rest) (line moment))
    (hleaves : Leaves lastLimit ((path, done ++ stored :: todo) :: rest)) :
    Collects count lastLimit line rest path done (stored :: todo) := by
  intro texts others out turns moment htexts hcount hturns
  rcases (hshows moment).first with ⟨more, hfile, _⟩
  rcases bounded_stored more hleaves.current with ⟨left, hview, _⟩
  cases turns with
  | zero => simp at hturns
  | succ turns =>
      have hturn : ChainedLines.turn lastLimit (line moment)
          { paths := rest.map Prod.fst
            current := some (path, currentLimit lastLimit rest,
              (joined newline done).length) } =
          .line (decodeLine path stored)
            { paths := rest.map Prod.fst
              current := some (path, currentLimit lastLimit rest,
                (joined newline (done ++ [stored])).length) } := by
        have hsplit : joined newline (done ++ stored :: todo) ++ left =
            joined newline done ++
              (stored ++ newline :: (joined newline todo ++ left)) := by
          simp [joined]
        unfold ChainedLines.turn
        simp only [hfile, Option.getD_some, hview]
        rw [hsplit, lineAt_cons hstored]
      unfold collectPrefix
      rw [hturn]
      simp only
      by_cases hfull : out.length = count
      · have hnone : texts.filter notBlank = [] :=
          List.length_eq_zero_iff.mp (by omega)
        rw [if_pos hfull, hnone, List.append_nil]
      · rw [if_neg hfull]
        cases texts with
        | nil => simp at hcount; omega
        | cons text texts =>
            rw [List.map_cons, List.map_cons, List.cons_append,
              List.cons_append] at htexts
            rcases List.cons_eq_cons.mp htexts with ⟨hdecoded, htexts⟩
            rw [hdecoded]
            simp only
            rw [List.length_cons] at hturns
            cases hblank : RustText.isBlank text with
            | true =>
                have htext : notBlank text = false := by simp [notBlank, hblank]
                rw [List.filter_cons, htext] at hcount ⊢
                exact hnext texts others out turns (moment + 1) htexts hcount
                  (by omega)
            | false =>
                have htext : notBlank text = true := by simp [notBlank, hblank]
                rw [List.filter_cons, htext, if_pos rfl] at hcount ⊢
                rw [List.length_cons] at hcount
                rw [if_neg (by simp), hnext texts others (out ++ [text]) turns
                  (moment + 1) htexts (by
                    rw [List.length_append, List.length_singleton]
                    omega) (by omega)]
                simp

theorem Collects.lines
    (hend : Collects count lastLimit line rest path (done ++ todo) [])
    (hlines : ∀ stored ∈ todo, newline ∉ stored)
    (hshows : ∀ moment, Shows ((path, done ++ todo) :: rest) (line moment))
    (hleaves : Leaves lastLimit ((path, done ++ todo) :: rest)) :
    Collects count lastLimit line rest path done todo := by
  induction todo generalizing done with
  | nil => simpa using hend
  | cons stored todo ih =>
      have hsplit : done ++ stored :: todo = done ++ [stored] ++ todo := by simp
      apply Collects.cons _ (hlines stored (by simp)) hshows hleaves
      rw [hsplit] at hend hshows hleaves
      exact ih hend (fun other hother => hlines other (by simp [hother])) hshows
        hleaves

/-- Past the last stored line there is nothing left to collect. -/
theorem Collects.last
    (hshows : ∀ moment, Shows [(path, done)] (line moment))
    (hleaves : Leaves lastLimit [(path, done)]) :
    Collects count lastLimit line [] path done [] := by
  intro texts others out turns moment htexts hcount hturns
  have hnone : texts = [] := by
    have hempty : texts.map Except.ok ++ others = [] := htexts.symm
    exact List.map_eq_nil_iff.mp (List.append_eq_nil_iff.mp hempty).1
  subst hnone
  rcases (hshows moment).first with ⟨more, hfile, _⟩
  rcases bounded_stored more hleaves.current with ⟨left, hview, _⟩
  rcases turns with _ | _ | turns
  · simp at hturns
  · simp at hturns
  · simp only [List.filter_nil, List.length_nil, Nat.add_zero] at hcount
    unfold collectPrefix ChainedLines.turn
    simp only [hfile, Option.getD_some, hview, List.map_nil, List.filter_nil,
      List.append_nil]
    cases lineAt (joined newline done ++ left)
        (joined newline done).length with
    | some found => simp [hcount]
    | none => simp [collectPrefix, ChainedLines.turn, hcount]

/-- A complete file's end leads to the next file's start. -/
theorem Collects.next {next : String × List Bytes}
    (hnext : Collects count lastLimit line rest next.1 [] next.2)
    (hshows : ∀ moment, Shows ((path, done) :: next :: rest) (line moment)) :
    Collects count lastLimit line (next :: rest) path done [] := by
  intro texts others out turns moment htexts hcount hturns
  rcases next with ⟨name, lines⟩
  rcases turns with _ | _ | turns
  · simp at hturns
  · simp at hturns
  · have hfile := (hshows moment).1
    rcases (hshows (moment + 1)).tail.first with ⟨more, hopened, _⟩
    rw [List.map_nil, List.nil_append, regionLines_cons] at htexts
    rw [regionLines_cons, List.length_append, List.length_map,
      List.length_cons] at hturns
    have hfirst := hnext texts others out turns (moment + 2) htexts hcount
      (by
        rw [List.length_nil] at hturns
        simp only
        omega)
    unfold collectPrefix ChainedLines.turn
    simp only [hfile, Option.getD_some, currentLimit, List.map_cons,
      reduceCtorEq, if_false, bounded, lineAt_end]
    unfold collectPrefix ChainedLines.turn
    simp only [hopened]
    exact hfirst

theorem collects_region (region : Region) (path : String) (lines : List Bytes)
    (hlines : ∀ file ∈ (path, lines) :: region,
      ∀ stored ∈ file.2, newline ∉ stored)
    (hshows : ∀ moment, Shows ((path, lines) :: region) (line moment))
    (hleaves : Leaves lastLimit ((path, lines) :: region)) :
    Collects count lastLimit line region path [] lines := by
  induction region generalizing path lines with
  | nil =>
      apply Collects.lines _ (hlines (path, lines) (by simp)) hshows hleaves
      exact Collects.last hshows hleaves
  | cons next region ih =>
      rcases next with ⟨name, others⟩
      apply Collects.lines _ (hlines (path, lines) (by simp)) hshows hleaves
      apply Collects.next _ hshows
      exact ih name others (fun file hfile => hlines file (by simp [hfile]))
        (fun moment => (hshows moment).tail) hleaves.tail

/-- However the files grow between its reads, a prefix gives the first
records of what it found listed. -/
theorem Prefix.lines_shown {wanted : Prefix} {reads : PrefixReads}
    {region : Region} {texts : List String}
    {others : List (Except LedgerError String)} {turns : ℕ}
    (hpaths : reads.resolvedPaths wanted.location =
      .ok (region.map Prod.fst))
    (hne : region ≠ [])
    (hlines : ∀ file ∈ region, ∀ stored ∈ file.2, newline ∉ stored)
    (hlength : Shows region reads.length)
    (hchunk : ∀ pos, reads.length.Grow (reads.chunk pos))
    (hline : ∀ moment, Shows region (reads.line moment))
    (htexts : regionLines region = texts.map Except.ok ++ others)
    (hcount : wanted.count = (texts.filter notBlank).length)
    (hturns : (regionLines region).length + 2 * region.length + 2 ≤ turns) :
    wanted.lines turns reads = some (.ok (texts.filter notBlank)) := by
  have hleaves : Leaves ((region.map Prod.fst).getLast?.bind reads.tornTail)
      region := by
    intro last hlast bound hbound
    rcases List.eq_nil_or_concat' region with rfl | ⟨init, final, rfl⟩
    · exact absurd rfl hne
    · rw [List.getLast?_concat, Option.mem_some_iff] at hlast
      subst hlast
      rw [List.map_append, List.map_singleton, List.getLast?_concat,
        Option.bind_some] at hbound
      rcases ((shows_append (by simp)).mp hlength).2 with ⟨more, hmore⟩
      exact PrefixReads.tornTail_le (hlines final (by simp)) hmore hchunk hbound
  unfold Prefix.lines
  rw [hpaths]
  simp only
  cases region with
  | nil => exact absurd rfl hne
  | cons first rest =>
      rcases first with ⟨path, lines⟩
      cases turns with
      | zero => simp at hturns
      | succ turns =>
          rcases (hline 0).first with ⟨more, hopened, _⟩
          have hcollects := @collects_region wanted.count _ _ rest path lines
            hlines hline hleaves texts others [] turns 1 htexts
            (by simpa using hcount) (by
              rw [regionLines_cons, List.length_append, List.length_map,
                List.length_cons] at hturns
              omega)
          unfold collectPrefix ChainedLines.turn
          simp only [List.map_cons, hopened]
          exact hcollects

end Reading

end Decern

import Decern.ShardListing
import Mathlib.Tactic

/-!
# What the listing lists

A shard that is listed was seen with a committed cursor.  While writers take
their steps between the reads, a shard with history keeps a cursor where the
listing looks for one: in its head, or before it has one in the file a
conversion is about to replace.
-/

namespace Decern

open ByteText (Bytes)

/-! ## Names -/

theorem stripSuffix_append (stem suffix : String) :
    stripSuffix (stem ++ suffix) suffix = some stem := by
  have hsuffix : suffix.toList <:+ (stem ++ suffix).toList := by
    rw [String.toList_append]
    exact List.suffix_append _ _
  rw [stripSuffix, if_pos hsuffix]
  simp

theorem stripSuffix_eq_none {stem suffix other : String}
    (hother : ∀ before, before ++ suffix.toList ≠
      stem.toList ++ other.toList) :
    stripSuffix (stem ++ other) suffix = none := by
  have hnot : ¬ suffix.toList <:+ (stem ++ other).toList := by
    rintro ⟨before, hbefore⟩
    rw [String.toList_append] at hbefore
    exact hother before hbefore
  rw [stripSuffix, if_neg hnot]

theorem dataFile_append (stem : String) (kind : DataFile) :
    dataFile (stem ++ kind.extension) = some (stem, kind) := by
  cases kind with
  | head =>
      have hhead := stripSuffix_append stem ".head"
      simp only [dataFile, DataFile.extension, hhead]
  | shard =>
      have hhead : stripSuffix (stem ++ ".shard") ".head" = none := by
        apply stripSuffix_eq_none
        intro before heq
        have hreverse := congrArg List.reverse heq
        simp at hreverse
      have hshard := stripSuffix_append stem ".shard"
      simp only [dataFile, DataFile.extension, hhead, hshard]
  | log =>
      have hhead : stripSuffix (stem ++ ".log") ".head" = none := by
        apply stripSuffix_eq_none
        intro before heq
        have hreverse := congrArg List.reverse heq
        simp at hreverse
      have hshard : stripSuffix (stem ++ ".log") ".shard" = none := by
        apply stripSuffix_eq_none
        intro before heq
        have hreverse := congrArg List.reverse heq
        simp at hreverse
      have hlog := stripSuffix_append stem ".log"
      simp only [dataFile, DataFile.extension, hhead, hshard, hlog,
        Option.map_some]

theorem shardFromHex_shardToHex (text : ListingText) (shard : String) :
    shardFromHex text (shardToHex shard) = .ok shard := by
  have heven : ¬ (ByteText.encode (shardToHex shard)).length % 2 ≠ 0 := by
    rw [shardToHex, HexText.length_encode_hex]
    omega
  simp only [shardFromHex, if_neg heven]
  simp [shardToHex]

/-! ## Reads -/

/-- The cursor of the head. -/
def ShardDisk.headCursor (disk : ShardDisk) : Option HeadCursor :=
  match disk.head with
  | .holds head => head.cursor
  | _ => none

/-- The cursor of the earlier layout. -/
def ShardDisk.legacyCursor (disk : ShardDisk) : Option HeadCursor :=
  match disk.shardFile with
  | .holds (.legacy old) => old.cursor
  | _ => none

theorem bind_listing_eq_ok {α β : Type} {first : Listing α}
    {next : α → Listing β} {turn : ℕ} {result : β × ℕ} :
    (first >>= next) turn = .ok result ↔
      ∃ found later, first turn = .ok (found, later) ∧
        next found later = .ok result := by
  change StateT.bind first next turn = .ok result ↔ _
  simp only [StateT.bind, bind, Except.bind]
  cases hfirst : first turn with
  | error error => simp
  | ok pair =>
      obtain ⟨found, later⟩ := pair
      simp

theorem pure_listing_eq_ok {α : Type} {value : α} {turn : ℕ}
    {result : α × ℕ} :
    (pure value : Listing α) turn = .ok result ↔ result = (value, turn) := by
  change (Except.ok (value, turn) : Except StoreError (α × ℕ)) =
    .ok result ↔ _
  simp only [Except.ok.injEq]
  exact eq_comm

theorem lift_listing_eq_ok {α : Type} {outcome : Except StoreError α}
    {turn : ℕ} {result : α × ℕ} :
    (liftM outcome : Listing α) turn = .ok result ↔
      outcome = .ok result.1 ∧ result.2 = turn := by
  change StateT.lift outcome turn = .ok result ↔ _
  simp only [StateT.lift, bind, Except.bind]
  obtain ⟨value, later⟩ := result
  cases outcome with
  | error error => simp
  | ok found =>
      simp only [pure, Except.pure, Except.ok.injEq, Prod.mk.injEq]
      constructor
      · rintro ⟨rfl, rfl⟩
        exact ⟨rfl, rfl⟩
      · rintro ⟨rfl, rfl⟩
        exact ⟨rfl, rfl⟩

section Reads

variable {α : Type} {look : Looks} {files : ShardFiles} {shard : String}
  {turn later : ℕ} {listed : Bool}

theorem lookAt_eq_ok {read : ShardDisk → Except StoreError α} {found : α} :
    lookAt look shard read turn = .ok (found, later) ↔
      ∃ disk, look turn shard = .ok disk ∧ read disk = .ok found ∧
        later = turn + 1 := by
  unfold lookAt
  simp only [bind, Except.bind, pure, Except.pure]
  cases hlook : look turn shard with
  | error error => simp
  | ok disk =>
      simp only [Except.ok.injEq, exists_eq_left']
      cases hread : read disk with
      | error error => simp
      | ok value =>
          simp only [Except.ok.injEq, Prod.mk.injEq]
          exact and_congr_right' eq_comm

theorem readHead_eq_ok {stored : Stored FileHead} {head : Option FileHead}
    (hread : readHead files stored = .ok head) :
    (stored = .absent ∧ head = none) ∨
      ∃ found, stored = .holds found ∧ head = some found := by
  cases stored with
  | absent =>
      cases hread
      exact Or.inl ⟨rfl, rfl⟩
  | holds found =>
      cases hread
      exact Or.inr ⟨found, rfl, rfl⟩
  | unreadable message => cases hread

theorem headListed_eq_ok
    (hlisted : headListed look files shard turn = .ok (listed, later)) :
    ∃ disk, look turn shard = .ok disk ∧
      listed = disk.headCursor.isSome := by
  unfold headListed at hlisted
  obtain ⟨head, next, hlook, hpure⟩ := bind_listing_eq_ok.mp hlisted
  obtain ⟨disk, hdisk, hread, rfl⟩ := lookAt_eq_ok.mp hlook
  have hvalue := pure_listing_eq_ok.mp hpure
  simp only [Prod.mk.injEq] at hvalue
  refine ⟨disk, hdisk, ?_⟩
  rw [hvalue.1]
  rcases readHead_eq_ok hread with ⟨hhead, rfl⟩ | ⟨found, hhead, rfl⟩
  · simp [ShardDisk.headCursor, hhead]
  · simp [ShardDisk.headCursor, hhead]

theorem converts_of_readBeside {disk : ShardDisk} {beside : Beside}
    (hread : readBeside files disk.shardFile = .ok beside) :
    beside.converts = disk.legacyCursor.isSome := by
  unfold ShardDisk.legacyCursor
  unfold readBeside at hread
  split at hread
  case h_1 hfile =>
    cases hread
    simp [hfile, Beside.converts]
  case h_2 hfile =>
    cases hread
    simp [hfile, Beside.converts]
  case h_3 => cases hread
  case h_4 old hfile =>
    split at hread
    case isTrue => cases hread
    case isFalse =>
      cases hread
      simp [hfile, Beside.converts]

theorem moved_of_readBeside {disk : ShardDisk}
    (hread : readBeside files disk.shardFile = .ok .marker) :
    disk.shardFile = .holds .moved := by
  unfold readBeside at hread
  split at hread
  case h_2 hfile => exact hfile
  case h_4 =>
    split at hread
    case isTrue => cases hread
    case isFalse => cases hread
  all_goals cases hread

/-- The reads of a shard whose `.shard` file is judged. -/
theorem listedByShard_eq_ok
    (hlisted : listedByShard look files shard turn = .ok (listed, later)) :
    ∃ disk, look turn shard = .ok disk ∧
      ((disk.headCursor.isSome = true ∧ listed = true) ∨
        (disk.headCursor.isSome = false ∧ ∃ next beside,
          look (turn + 1) shard = .ok next ∧
          readBeside files next.shardFile = .ok beside ∧
          ((beside ≠ .marker ∧ listed = next.legacyCursor.isSome) ∨
            (beside = .marker ∧ ∃ last,
              look (turn + 2) shard = .ok last ∧
              listed = last.headCursor.isSome)))) := by
  unfold listedByShard at hlisted
  obtain ⟨first, next, hfirst, hrest⟩ := bind_listing_eq_ok.mp hlisted
  have hturn : next = turn + 1 := by
    unfold headListed at hfirst
    obtain ⟨head, between, hlook, hpure⟩ := bind_listing_eq_ok.mp hfirst
    obtain ⟨_, _, _, rfl⟩ := lookAt_eq_ok.mp hlook
    exact congrArg Prod.snd (pure_listing_eq_ok.mp hpure)
  subst hturn
  obtain ⟨disk, hdisk, hcursor⟩ := headListed_eq_ok hfirst
  refine ⟨disk, hdisk, ?_⟩
  by_cases hhead : first = true
  · rw [if_pos hhead] at hrest
    have hvalue := pure_listing_eq_ok.mp hrest
    exact Or.inl ⟨by rw [← hcursor, hhead], congrArg Prod.fst hvalue⟩
  · rw [if_neg hhead] at hrest
    have hnone : disk.headCursor.isSome = false := by
      rw [← hcursor]
      exact Bool.eq_false_of_not_eq_true hhead
    obtain ⟨beside, between, hlook, hmatch⟩ := bind_listing_eq_ok.mp hrest
    obtain ⟨second, hsecond, hread, rfl⟩ := lookAt_eq_ok.mp hlook
    refine Or.inr ⟨hnone, second, beside, hsecond, hread, ?_⟩
    cases beside with
    | missing =>
        have hvalue := pure_listing_eq_ok.mp hmatch
        have hconverts := converts_of_readBeside hread
        refine Or.inl ⟨by simp, ?_⟩
        rw [← hconverts]
        exact congrArg Prod.fst hvalue
    | earlier old =>
        have hvalue := pure_listing_eq_ok.mp hmatch
        have hconverts := converts_of_readBeside hread
        refine Or.inl ⟨by simp, ?_⟩
        rw [← hconverts]
        exact congrArg Prod.fst hvalue
    | marker =>
        obtain ⟨last, hlast, hcursor'⟩ := headListed_eq_ok hmatch
        exact Or.inr ⟨rfl, last, hlast, hcursor'⟩

theorem headExists_eq_ok
    (hexists : headExists look shard turn = .ok (listed, later)) :
    later = turn + 1 ∧ (listed = true → ∃ disk, look turn shard = .ok disk ∧
      disk.head ≠ .absent) := by
  unfold headExists at hexists
  simp only [Except.ok.injEq, Prod.mk.injEq] at hexists
  obtain ⟨hvalue, hturn⟩ := hexists
  refine ⟨hturn.symm, fun htrue => ?_⟩
  cases hlook : look turn shard with
  | error error =>
      rw [hlook] at hvalue
      rw [htrue] at hvalue
      cases hvalue
  | ok disk =>
      rw [hlook] at hvalue
      simp only at hvalue
      rw [htrue] at hvalue
      exact ⟨disk, rfl, of_decide_eq_true hvalue⟩

/-- The reads of a shard whose log is judged: its head where there is one, or
the file a conversion reads, or a log with nothing in it. -/
theorem listedByLog_eq_ok
    (hlisted : listedByLog look files shard turn = .ok (listed, later)) :
    (∃ before disk at' last, turn ≤ before ∧ before < at' ∧
      look before shard = .ok disk ∧ disk.head ≠ .absent ∧
      look at' shard = .ok last ∧ listed = last.headCursor.isSome) ∨
    (∃ at' disk, turn ≤ at' ∧ look at' shard = .ok disk ∧
      disk.legacyCursor.isSome = true ∧ listed = true) ∨
    (∃ at' disk beside later last, turn ≤ at' ∧ at' < later ∧
      look at' shard = .ok disk ∧
      readBeside files disk.shardFile = .ok beside ∧
      beside.converts = false ∧ look later shard = .ok last ∧
      refuseOrphanLog files last.log beside = .ok () ∧ listed = false) := by
  unfold listedByLog at hlisted
  obtain ⟨present, next, hexists, hrest⟩ := bind_listing_eq_ok.mp hlisted
  obtain ⟨rfl, hpresent⟩ := headExists_eq_ok hexists
  by_cases hhead : present = true
  · rw [if_pos hhead] at hrest
    obtain ⟨disk, hdisk, hsome⟩ := hpresent hhead
    obtain ⟨last, hlast, hcursor⟩ := headListed_eq_ok hrest
    exact Or.inl ⟨turn, disk, turn + 1, last, le_refl _, by omega, hdisk,
      hsome, hlast, hcursor⟩
  · rw [if_neg hhead] at hrest
    obtain ⟨beside, between, hlook, hrest⟩ := bind_listing_eq_ok.mp hrest
    obtain ⟨disk, hdisk, hread, rfl⟩ := lookAt_eq_ok.mp hlook
    obtain ⟨converted, at', hconverted, hrest⟩ :=
      bind_listing_eq_ok.mp hrest
    by_cases hagain : converted = true
    · rw [if_pos hagain] at hrest
      by_cases hmarker : beside = .marker
      · rw [convertedSince, if_pos hmarker] at hconverted
        obtain ⟨rfl, hpresent⟩ := headExists_eq_ok hconverted
        obtain ⟨found, hfound, hsome⟩ := hpresent hagain
        obtain ⟨last, hlast, hcursor⟩ := headListed_eq_ok hrest
        exact Or.inl ⟨_, found, _, last, by omega, by omega, hfound, hsome,
          hlast, hcursor⟩
      · rw [convertedSince, if_neg hmarker] at hconverted
        have hvalue := pure_listing_eq_ok.mp hconverted
        rw [Prod.mk.injEq, hagain] at hvalue
        cases hvalue.1
    · rw [if_neg hagain] at hrest
      have hat : turn + 1 + 1 ≤ at' := by
        by_cases hmarker : beside = .marker
        · rw [convertedSince, if_pos hmarker] at hconverted
          obtain ⟨rfl, _⟩ := headExists_eq_ok hconverted
          omega
        · rw [convertedSince, if_neg hmarker] at hconverted
          have hvalue := pure_listing_eq_ok.mp hconverted
          rw [Prod.mk.injEq] at hvalue
          omega
      by_cases hconverts : beside.converts = true
      · rw [if_pos hconverts] at hrest
        have hvalue := pure_listing_eq_ok.mp hrest
        have hlegacy := converts_of_readBeside hread
        exact Or.inr (Or.inl ⟨turn + 1, disk, by omega, hdisk,
          by rw [← hlegacy, hconverts], congrArg Prod.fst hvalue⟩)
      · rw [if_neg hconverts] at hrest
        obtain ⟨_, end', hlook, hpure⟩ := bind_listing_eq_ok.mp hrest
        obtain ⟨last, hlast, horphan, _⟩ := lookAt_eq_ok.mp hlook
        have hvalue := pure_listing_eq_ok.mp hpure
        exact Or.inr (Or.inr ⟨turn + 1, disk, beside, at', last, by omega,
          by omega, hdisk, hread, Bool.eq_false_of_not_eq_true hconverts,
          hlast, horphan, congrArg Prod.fst hvalue⟩)

/-- Whatever is listed was seen with a cursor. -/
theorem stated_of_listedBy {kind : DataFile}
    (hlisted : listedBy look files shard kind turn = .ok (true, later)) :
    ∃ at' disk, look at' shard = .ok disk ∧
      (disk.headCursor.isSome ∨ disk.legacyCursor.isSome) := by
  cases kind with
  | head =>
      obtain ⟨disk, hdisk, hcursor⟩ := headListed_eq_ok hlisted
      exact ⟨turn, disk, hdisk, Or.inl hcursor.symm⟩
  | shard =>
      obtain ⟨disk, hdisk, ⟨hcursor, _⟩ |
        ⟨_, next, beside, hnext, _, ⟨_, hlegacy⟩ | ⟨_, last, hlast, hcursor⟩⟩⟩
          := listedByShard_eq_ok hlisted
      · exact ⟨turn, disk, hdisk, Or.inl hcursor⟩
      · exact ⟨turn + 1, next, hnext, Or.inr hlegacy.symm⟩
      · exact ⟨turn + 2, last, hlast, Or.inl hcursor.symm⟩
  | log =>
      rcases listedByLog_eq_ok hlisted with
        ⟨_, _, at', last, _, _, _, _, hlast, hcursor⟩ |
        ⟨at', disk, _, hdisk, hlegacy, _⟩ |
        ⟨_, _, _, _, _, _, _, _, _, _, _, _, hfalse⟩
      · exact ⟨at', last, hlast, Or.inl hcursor.symm⟩
      · exact ⟨at', disk, hdisk, Or.inr hlegacy⟩
      · cases hfalse

end Reads

/-! ## The entries one by one -/

section Entries

variable {root : String} {text : ListingText} {look : Looks}
  {names : List String} {out result : Std.ExtTreeSet String}
  {turn later : ℕ}

/-- What the entry lists its shard by, and when. -/
def Judged (root : String) (text : ListingText) (look : Looks)
    (name shard : String) (listed : Bool) (turn : ℕ) : Prop :=
  ∃ stem kind files later, dataFile name = some (stem, kind) ∧
    shardFromHex text stem = .ok shard ∧
    filesOf root shard text.utf8Error = .ok files ∧
    listedBy look files shard kind turn = .ok (listed, later)

theorem listName_eq_ok {name : String}
    (hname : listName root text look out name turn = .ok (result, later)) :
    (result = out ∧ (dataFile name = none ∨
      ∃ shard, Judged root text look name shard false turn)) ∨
    ∃ shard, result = out.insert shard ∧
      Judged root text look name shard true turn := by
  unfold listName at hname
  cases hdata : dataFile name with
  | none =>
      rw [hdata] at hname
      have hvalue := pure_listing_eq_ok.mp hname
      exact Or.inl ⟨congrArg Prod.fst hvalue, Or.inl rfl⟩
  | some named =>
      obtain ⟨stem, kind⟩ := named
      rw [hdata] at hname
      obtain ⟨shard, _, hdecoded, hfound⟩ := bind_listing_eq_ok.mp hname
      obtain ⟨hshard, rfl⟩ := lift_listing_eq_ok.mp hdecoded
      obtain ⟨files, _, hlocated, hjudge⟩ := bind_listing_eq_ok.mp hfound
      obtain ⟨hfiles, rfl⟩ := lift_listing_eq_ok.mp hlocated
      obtain ⟨listed, next, hlisted, hpure⟩ := bind_listing_eq_ok.mp hjudge
      have hjudged : Judged root text look name shard listed _ :=
        ⟨stem, kind, files, next, hdata, hshard, hfiles, hlisted⟩
      cases listed with
      | true =>
          have hvalue := pure_listing_eq_ok.mp hpure
          exact Or.inr ⟨shard, congrArg Prod.fst hvalue, hjudged⟩
      | false =>
          have hvalue := pure_listing_eq_ok.mp hpure
          exact Or.inl ⟨congrArg Prod.fst hvalue, Or.inr ⟨shard, hjudged⟩⟩

/-- What a listing that succeeds has done with its entries. -/
structure Lists (root : String) (text : ListingText) (look : Looks)
    (names : List String) (out result : Std.ExtTreeSet String) : Prop where
  kept : ∀ shard ∈ out, shard ∈ result
  sound : ∀ shard ∈ result, shard ∈ out ∨
    ∃ name ∈ names, ∃ turn, Judged root text look name shard true turn
  judged : ∀ name ∈ names, dataFile name = none ∨
    ∃ shard listed turn, Judged root text look name shard listed turn ∧
      (listed = true → shard ∈ result)

theorem lists_name {name : String}
    (hname : listName root text look out name turn = .ok (result, later)) :
    Lists root text look [name] out result := by
  rcases listName_eq_ok hname with ⟨rfl, hnone | ⟨shard, hjudged⟩⟩ |
    ⟨shard, rfl, hjudged⟩
  · exact {
      kept := fun _ hmem => hmem
      sound := fun _ hmem => Or.inl hmem
      judged := by simpa using Or.inl hnone }
  · exact {
      kept := fun _ hmem => hmem
      sound := fun _ hmem => Or.inl hmem
      judged := by
        intro other hother
        rw [List.mem_singleton.mp hother]
        exact Or.inr ⟨shard, false, turn, hjudged, by simp⟩ }
  · exact {
      kept := fun _ hmem => Std.ExtTreeSet.mem_insert.mpr (Or.inr hmem)
      sound := by
        intro other hother
        rw [Std.ExtTreeSet.mem_insert,
          Std.LawfulEqCmp.compare_eq_iff_eq] at hother
        rcases hother with rfl | hmem
        · exact Or.inr ⟨name, by simp, turn, hjudged⟩
        · exact Or.inl hmem
      judged := by
        intro other hother
        rw [List.mem_singleton.mp hother]
        exact Or.inr ⟨shard, true, turn, hjudged,
          fun _ => Std.ExtTreeSet.mem_insert_self⟩ }

theorem lists_names
    (hnames : names.foldlM (listName root text look) out turn =
      .ok (result, later)) :
    Lists root text look names out result := by
  induction names generalizing out turn with
  | nil =>
      have hvalue := pure_listing_eq_ok.mp hnames
      have hsame : result = out := congrArg Prod.fst hvalue
      subst hsame
      exact {
        kept := fun _ hmem => hmem
        sound := fun _ hmem => Or.inl hmem
        judged := by simp }
  | cons name rest ih =>
      rw [List.foldlM_cons] at hnames
      obtain ⟨between, next, hname, hrest⟩ := bind_listing_eq_ok.mp hnames
      have hfirst := lists_name hname
      have hlists := ih hrest
      refine { kept := ?_, sound := ?_, judged := ?_ }
      · exact fun shard hmem => hlists.kept shard (hfirst.kept shard hmem)
      · intro shard hmem
        rcases hlists.sound shard hmem with hmem | ⟨other, hother, hjudged⟩
        · rcases hfirst.sound shard hmem with hmem |
            ⟨other, hother, hjudged⟩
          · exact Or.inl hmem
          · rw [List.mem_singleton.mp hother] at hjudged
            exact Or.inr ⟨name, by simp, hjudged⟩
        · exact Or.inr ⟨other, List.mem_cons_of_mem _ hother, hjudged⟩
      · intro other hother
        rcases List.mem_cons.mp hother with rfl | hother
        · rcases hfirst.judged other (by simp) with hnone |
            ⟨shard, listed, at', hjudged, hlisted⟩
          · exact Or.inl hnone
          · exact Or.inr ⟨shard, listed, at', hjudged,
              fun htrue => hlists.kept shard (hlisted htrue)⟩
        · exact hlists.judged other hother

/-- The entry of a shard's file is judged for that shard. -/
theorem judged_dataFileName {shard shard' : String} {kind : DataFile}
    {listed : Bool}
    (hjudged : Judged root text look (dataFileName shard kind) shard' listed
      turn) :
    shard' = shard ∧ ∃ files later,
      filesOf root shard text.utf8Error = .ok files ∧
      listedBy look files shard kind turn = .ok (listed, later) := by
  obtain ⟨stem, kind', files, later, hdata, hshard, hfiles, hlisted⟩ :=
    hjudged
  rw [dataFileName, dataFile_append, Option.some.injEq,
    Prod.mk.injEq] at hdata
  obtain ⟨rfl, rfl⟩ := hdata
  rw [shardFromHex_shardToHex, Except.ok.injEq] at hshard
  subst hshard
  exact ⟨rfl, files, later, hfiles, hlisted⟩

theorem listNamed_eq_ok {list : List String}
    (hlist : listNamed root text look names turn = .ok (list, later)) :
    ∃ result : Std.ExtTreeSet String, list = result.toList ∧
      Lists root text look names ∅ result := by
  unfold listNamed at hlist
  obtain ⟨result, next, hnames, hpure⟩ := bind_listing_eq_ok.mp hlist
  have hvalue := pure_listing_eq_ok.mp hpure
  exact ⟨result, congrArg Prod.fst hvalue, lists_names hnames⟩

/-- Sorted, each once. -/
theorem pairwise_toList (result : Std.ExtTreeSet String) :
    result.toList.Pairwise fun left right => compare left right = .lt :=
  Std.ExtTreeSet.ordered_toList

end Entries

end Decern

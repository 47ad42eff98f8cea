import Decern.EvidenceShards
import Decern.SegmentRefinement
import Mathlib.Tactic

/-!
# Evidence is accepted

The bundle cut from one snapshot of a single file, a segmented ledger or a
shard is accepted under any ring with the keys used, alone and against every
tree head signed earlier.  A segmented ledger shows its readers the lines of
the file it refines.
-/

namespace Decern

open ByteText (Bytes newline)
open LineText (cut joined)

variable (P : Platform)

/-! ## Segments -/

/-- Every entry a call appends is one of these. -/
def LedgerCall.Appends (among : Entry → Prop) : LedgerCall → Prop
  | .append entry => among entry
  | .appendAll entries => ∀ entry ∈ entries, among entry
  | _ => True

namespace SegmentState

/-- Where a handle finds its records. -/
def location (state : SegmentState) : Location :=
  segmentPaths state.directory

/-- The key the handle signs under is in the ring. -/
def KeyIn (ring : List VerifyingKey) (state : SegmentState) : Prop :=
  ∀ handle, state.handle = some handle →
    P.verifyingKey handle.ledger.key ∈ ring

/-- A directory that did not exist, after some calls. -/
def after (calls : List LedgerCall) : SegmentState :=
  StateRun.run (SegmentState.next P) .start calls

end SegmentState

/-- Such entries, under a key of the ring once it is done. -/
def LedgerCall.AppendsTo (among : Entry → Prop) (ring : List VerifyingKey)
    (state : SegmentState) (request : LedgerCall) : Prop :=
  request.Appends among ∧ (state.next P request).KeyIn P ring

/-- Lines within the limit, under a key of the ring once it is done. -/
def LedgerCall.ExportsTo (ring : List VerifyingKey) (state : SegmentState)
    (request : LedgerCall) : Prop :=
  request.AppendsTo P Entry.LineWithinLimit ring state

section Segments

variable {P} {among : Entry → Prop} {target : Target} {path : String}
  {ring : List VerifyingKey} {state : SegmentState} {world : World}

theorem Reflects.keyIn (hrefines : Reflects P state world)
    (hkey : state.KeyIn P ring) : world.KeyIn P ring := by
  cases hrefines with
  | fresh =>
      intro session hnone
      cases hnone
  | closed keeps =>
      intro session hnone
      cases hnone
  | opened serves same =>
      rintro session ⟨⟩
      rw [same]
      exact hkey _ rfl

/-- What the segments took of a call, a file takes in full. -/
theorem next_followed (hrefines : Reflects P state world)
    {request : LedgerCall}
    (hrequest : request.AppendsTo P among ring state) :
    ∃ operations, StateRun.Admitted (World.step P target path)
        (Operation.AppendsTo P among target path ring) world operations ∧
      Reflects P (state.next P request)
        (StateRun.run (World.step P target path) world operations) := by
  obtain ⟨hwithin, hkeyed⟩ := hrequest
  cases request with
  | reopen key retired policy =>
      have hnext := (hrefines.reopen target path key retired policy).1
      refine ⟨[.close, .open key retired none none],
        ⟨⟨trivial, ?_⟩, ⟨trivial, hnext.keyIn hkeyed⟩, trivial⟩, hnext⟩
      cases hrefines <;> rintro session ⟨⟩
  | append entry =>
      rcases hrefines.append target path entry with
        ⟨hsame, _⟩ | ⟨hnext, _⟩
      · exact ⟨[], trivial, by rw [hsame]; exact hrefines⟩
      · exact ⟨[.append entry none],
          ⟨⟨hwithin, hnext.keyIn hkeyed⟩, trivial⟩, hnext⟩
  | appendAll entries =>
      obtain ⟨taken, hbegins, _, hnext, _⟩ :=
        hrefines.appendAll target path entries
      refine ⟨[.appendAll (taken.map fun entry => (entry, none)) none],
        ⟨⟨?_, hnext.keyIn hkeyed⟩, trivial⟩, hnext⟩
      intro item hitem
      obtain ⟨entry, hentry, rfl⟩ := List.mem_map.mp hitem
      exact hwithin entry (hbegins.subset hentry)
  | rotate newKey =>
      have hnext := (hrefines.rotate target path newKey).1
      exact ⟨[.rotate newKey], ⟨⟨trivial, hnext.keyIn hkeyed⟩, trivial⟩,
        hnext⟩

theorem run_followed (hrefines : Reflects P state world)
    {calls : List LedgerCall}
    (hcalls : StateRun.Admitted (SegmentState.next P)
      (fun state request => LedgerCall.AppendsTo P among ring state request)
      state calls) :
    ∃ operations, StateRun.Admitted (World.step P target path)
        (Operation.AppendsTo P among target path ring) world operations ∧
      Reflects P (StateRun.run (SegmentState.next P) state calls)
        (StateRun.run (World.step P target path) world operations) := by
  have hstep : ∀ state world request, Reflects P state world →
      LedgerCall.AppendsTo P among ring state request → ∃ operations,
        StateRun.Admitted (World.step P target path)
            (Operation.AppendsTo P among target path ring) world operations ∧
          Reflects P (state.next P request)
            (StateRun.run (World.step P target path) world operations) :=
    fun _ _ _ hrelated hrequest => next_followed hrelated hrequest
  exact StateRun.run_follows (SegmentState.next P) hstep hrefines hcalls

theorem Keeps.stores {dir : Directory} {records : List RecordOut}
    (hkeeps : Keeps P dir records) :
    Location.Stores P (segmentPaths dir) records := by
  obtain ⟨manifest, done, active, blocks, current, hstored, hlines⟩ := hkeeps
  exact ⟨_, hstored.layout.paths, hstored.prefixLines_eq hlines⟩

/-- A file of records is read as they are. -/
theorem stores_written (path : String) (records : List RecordOut)
    (session : Option Session) :
    Location.Stores P (World.location path
      { file := some (joined newline (records.map (recordLine P)))
        session }) records :=
  ⟨_, rfl, prefixLines_written path records⟩

/-- Two places that hold one log give a handle the same evidence. -/
theorem Location.Holds.evidence {here there : Location}
    {records : List RecordOut} {rest : List (Except LedgerError String)}
    (hhere : here.Holds P records rest) (hthere : there.Holds P records rest)
    (ledger : Ledger) (tsMs : UInt64) :
    ledger.treeHead P here tsMs = ledger.treeHead P there tsMs ∧
      ledger.snapshotForBundle P here tsMs =
        ledger.snapshotForBundle P there tsMs := by
  obtain ⟨files, rfl, hfiles⟩ := hhere
  obtain ⟨others, rfl, hothers⟩ := hthere
  have hsame : chainedLines files = chainedLines others := by
    rw [hfiles, hothers]
  unfold Ledger.treeHead Ledger.snapshotForBundle Ledger.merkleLeaves
    Ledger.readRecords Ledger.readRawRecords
  simp only [bind, Except.bind, hsame]
  trivial

/-- An open segmented handle gives the evidence of the file it refines. -/
theorem Reflects.evidence (hrefines : Reflects P state world) (path : String)
    {handle : SegmentedLedger} (hhandle : state.handle = some handle) :
    ∃ session, world.session = some session ∧
      session.ledger = handle.ledger ∧ ∀ tsMs,
        handle.ledger.treeHead P state.location tsMs =
          session.ledger.treeHead P (world.location path) tsMs ∧
        handle.ledger.snapshotForBundle P state.location tsMs =
          session.ledger.snapshotForBundle P (world.location path) tsMs := by
  cases hrefines with
  | fresh => cases hhandle
  | closed keeps => cases hhandle
  | @opened dir handle session records serves same =>
      cases hhandle
      have hthere := (stores_written (P := P) path records
        (some session)).holds
      refine ⟨session, rfl, same, fun tsMs => ?_⟩
      rw [same]
      exact serves.keeps.stores.holds.evidence hthere handle.ledger tsMs

/-- A segmented handle's snapshot is accepted as a file's is. -/
theorem segmented_evidence {earlier later : List LedgerCall}
    (hcalls : StateRun.Admitted (SegmentState.next P)
      (fun state request => LedgerCall.ExportsTo P ring state request) .start
      (earlier ++ later)) {handle : SegmentedLedger}
    (hhandle : (SegmentState.after P (earlier ++ later)).handle =
      some handle)
    (hfits : handle.ledger.nextSeq < UInt64.size) (tsMs : UInt64) :
    ∃ snapshot, handle.ledger.snapshotForBundle P
        (SegmentState.after P (earlier ++ later)).location tsMs =
          .ok snapshot ∧
      snapshot.Stands P id ring fun th => ∃ old,
        (SegmentState.after P earlier).handle = some old ∧
        old.ledger.Signs P (SegmentState.after P earlier).location th := by
  obtain ⟨hfirst, hsecond⟩ := (StateRun.admitted_append _).mp hcalls
  obtain ⟨first, hfirstWorld, hbefore⟩ :=
    run_followed (.fresh : Reflects P _ _) hfirst
  obtain ⟨second, hsecondWorld, hafter⟩ := run_followed hbefore hsecond
  have hoperations : StateRun.Admitted (World.step P .unix "ledger")
      (Operation.ExportsTo P .unix "ledger" ring)
      { file := none, session := none } (first ++ second) :=
    (StateRun.admitted_append _).mpr ⟨hfirstWorld, hsecondWorld⟩
  rw [← StateRun.run_append, ← StateRun.run_append] at hafter
  obtain ⟨session, hsession, hsame, hevidence⟩ :=
    hafter.evidence "ledger" hhandle
  obtain ⟨snapshot, hsnapshot, hstands⟩ := single_evidence P hoperations
    hsession (by rw [hsame]; exact hfits) tsMs
  refine ⟨snapshot, (hevidence tsMs).2.trans hsnapshot, hstands.1, ?_⟩
  rintro th ⟨old, hold, oldMs, hsigns⟩ hpos
  obtain ⟨oldSession, holdSession, _, holdEvidence⟩ :=
    hbefore.evidence "ledger" hold
  refine hstands.2 th ⟨oldSession, holdSession, oldMs, ?_⟩ hpos
  obtain ⟨hhead, hsnap⟩ := holdEvidence oldMs
  refine hsigns.imp (fun hth => hhead.symm.trans hth) ?_
  rintro ⟨earlierSnapshot, hth, heq⟩
  exact ⟨earlierSnapshot, hsnap.symm.trans hth, heq⟩

end Segments

/-! ## Shards -/

/-- A tree head a process signs of a shard, alone or in a snapshot. -/
def ShardedLedger.Signs {P : Platform} (ledger : ShardedLedger P)
    (shard : Shard) (th : TreeHead) : Prop :=
  ∃ tsMs, ledger.treeHead shard tsMs = .ok th ∨
    ∃ snapshot, ledger.evidenceSnapshot shard tsMs = .ok snapshot ∧
      snapshot.treeHead = th

section Shards

variable {P} {ring : List VerifyingKey}

theorem ShardedLedger.Signs.leaves {ledger : ShardedLedger P} {shard : Shard}
    {th : TreeHead} (hsigns : ledger.Signs shard th) {leaves : List Bytes}
    (hleaves : ShardedLedger.leavesOfStored P shard.records = .ok leaves) :
    ∃ tsMs, th = treeHeadOver P ledger.key leaves tsMs := by
  obtain ⟨tsMs, hhead | ⟨snapshot, hsnapshot, rfl⟩⟩ := hsigns
  · unfold ShardedLedger.treeHead ShardedLedger.merkleLeaves at hhead
    rw [hleaves] at hhead
    cases hhead
    exact ⟨tsMs, rfl⟩
  · unfold ShardedLedger.evidenceSnapshot at hsnapshot
    rw [hleaves] at hsnapshot
    cases hsnapshot
    exact ⟨tsMs, rfl⟩

/-- A shard's snapshot is accepted, also against a tree head any process
signed of it earlier. -/
theorem shard_evidence {name : String} {earlier later : List (ShardSection P)}
    (hsections : StateRun.Admitted (ShardSection.next name)
      (fun shard visit => visit.ExportsTo name ring shard) {}
      (earlier ++ later))
    {ledger : ShardedLedger P} (hkey : P.verifyingKey ledger.key ∈ ring)
    (hfits : (StateRun.run (ShardSection.next name) {}
      (earlier ++ later)).nextSeq < UInt64.size) (tsMs : UInt64) :
    ∃ snapshot, ledger.evidenceSnapshot
        (StateRun.run (ShardSection.next name) {} (earlier ++ later)) tsMs =
          .ok snapshot ∧
      snapshot.Stands P StoredRecord.recordJson ring fun th =>
        ∃ old : ShardedLedger P, P.verifyingKey old.key ∈ ring ∧
          old.Signs (StateRun.run (ShardSection.next name) {} earlier)
            th := by
  obtain ⟨hfirst, hsecond⟩ := (StateRun.admitted_append _).mp hsections
  have hwithin : ∀ entry : Entry, entry.LineWithinLimit →
      entry.ReadsUnder 2 := fun _ hentry => hentry
  obtain ⟨before, hbefore⟩ :=
    Shard.Exports.empty.run (by omega) hwithin hfirst
  obtain ⟨more, hafter⟩ := hbefore.run (by omega) hwithin hsecond
  rw [List.nil_append] at hbefore hafter
  rw [← StateRun.run_append] at hafter
  generalize StateRun.run (ShardSection.next name) {} (earlier ++ later) =
    shard at hafter hfits ⊢
  generalize StateRun.run (ShardSection.next name) {} earlier = old
    at hbefore ⊢
  have hring := List.ne_nil_of_mem hkey
  have hexport := hafter.exportable
  have hcount := hafter.count
  rw [hcount] at hfits
  obtain ⟨values, hvalues⟩ := hexport.values hring hfits
  obtain ⟨leaves, hleaves⟩ := hexport.leaves hring hfits
  have hstored : ShardedLedger.leavesOfStored P shard.records = .ok leaves :=
    ShardedLedger.leavesOfStored_written P hafter.lines hvalues hleaves
  have haccepted := hexport.accepted hfits hkey hleaves tsMs
  refine ⟨{
      count := UInt64.ofNat shard.nextSeq
      records := shard.records
      checkpoint := signCheckpoint P ledger.key shard.lastHash
        (UInt64.ofNat shard.nextSeq) tsMs
      treeHead := treeHeadOver P ledger.key leaves tsMs }, ?_, ?_, ?_⟩
  · unfold ShardedLedger.evidenceSnapshot
    rw [hstored]
    rfl
  · have halone := haccepted none fun _ hnone => by cases hnone
    rw [bundleOver, ← hcount, ← hafter.lines] at halone
    exact halone
  · rintro th ⟨signer, hsigner, hsigns⟩ hpos
    have hold : (before ++ more).take before.length = before :=
      List.take_left
    have holdValues : ValuesOf P before (values.take before.length) := by
      have htaken := List.forall₂_take before.length hvalues
      rw [hold] at htaken
      exact htaken
    have holdLeaves : HashedTo before (leaves.take before.length) := by
      have htaken := List.forall₂_take before.length hleaves
      rw [hold] at htaken
      exact htaken
    obtain ⟨oldMs, rfl⟩ := hsigns.leaves
      (ShardedLedger.leavesOfStored_written P hbefore.lines holdValues
        holdLeaves)
    have hagainst := haccepted
      (some (treeHeadOver P signer.key (leaves.take before.length) oldMs))
      fun head hhead => ⟨signer.key, before.length, oldMs, hsigner,
        Exportable.one_le_size hpos, by simp, (Option.some.inj hhead).symm⟩
    rw [bundleOver, ← hcount, ← hafter.lines] at hagainst
    exact hagainst

end Shards

/-- The evidence of a single file, of a segmented ledger and of a shard is
accepted under a ring with the keys used, alone and against every tree head
signed before. -/
theorem evidence_accepted (ring : List VerifyingKey) (tsMs : UInt64) :
    (∀ target path earlier later session,
      StateRun.Admitted (World.step P target path)
        (Operation.ExportsTo P target path ring)
        { file := none, session := none } (earlier ++ later) →
      (World.after P target path none (earlier ++ later)).session =
        some session →
      session.ledger.nextSeq < UInt64.size →
      ∃ snapshot, session.ledger.snapshotForBundle P
          ((World.after P target path none
            (earlier ++ later)).location path) tsMs = .ok snapshot ∧
        snapshot.Stands P id ring fun th => ∃ old,
          (World.after P target path none earlier).session = some old ∧
          old.ledger.Signs P ((World.after P target path none
            earlier).location path) th) ∧
    (∀ earlier later handle,
      StateRun.Admitted (SegmentState.next P)
        (fun state request => LedgerCall.ExportsTo P ring state request)
        .start (earlier ++ later) →
      (SegmentState.after P (earlier ++ later)).handle = some handle →
      handle.ledger.nextSeq < UInt64.size →
      ∃ snapshot, handle.ledger.snapshotForBundle P
          (SegmentState.after P (earlier ++ later)).location tsMs =
            .ok snapshot ∧
        snapshot.Stands P id ring fun th => ∃ old,
          (SegmentState.after P earlier).handle = some old ∧
          old.ledger.Signs P (SegmentState.after P earlier).location th) ∧
    ∀ name (earlier later : List (ShardSection P))
        (ledger : ShardedLedger P),
      StateRun.Admitted (ShardSection.next name)
        (fun shard visit => visit.ExportsTo name ring shard) {}
        (earlier ++ later) →
      P.verifyingKey ledger.key ∈ ring →
      (StateRun.run (ShardSection.next name) {}
        (earlier ++ later)).nextSeq < UInt64.size →
      ∃ snapshot, ledger.evidenceSnapshot
          (StateRun.run (ShardSection.next name) {} (earlier ++ later))
            tsMs = .ok snapshot ∧
        snapshot.Stands P StoredRecord.recordJson ring fun th =>
          ∃ old : ShardedLedger P, P.verifyingKey old.key ∈ ring ∧
            old.Signs (StateRun.run (ShardSection.next name) {} earlier)
              th :=
  ⟨fun _ _ _ _ _ hoperations hsession hfits =>
      single_evidence P hoperations hsession hfits tsMs,
    fun _ _ _ hcalls hhandle hfits =>
      segmented_evidence hcalls hhandle hfits tsMs,
    fun _ _ _ _ hsections hkey hfits =>
      shard_evidence hsections hkey hfits tsMs⟩

/-- A process that appends one entry to a shard. -/
def sampleSection : ShardSection samplePlatform :=
  .atHead (.new samplePlatform (sampleKey 1) []) (sampleEntry .null) .ok

theorem evidence_accepted_sample :
    (∃ session snapshot,
      (World.after samplePlatform .unix "ledger" none
        ([.open (sampleKey 1) [] none none] ++
          [.append (sampleEntry .null) none])).session = some session ∧
      session.ledger.snapshotForBundle samplePlatform
        ((World.after samplePlatform .unix "ledger" none
          ([.open (sampleKey 1) [] none none] ++
            [.append (sampleEntry .null) none])).location "ledger") 0 =
          .ok snapshot ∧
      snapshot.Accepted samplePlatform id [sampleKey 1] none) ∧
    (∃ handle snapshot,
      (SegmentState.after samplePlatform
        ([sampleReopen] ++ sampleAppends)).handle = some handle ∧
      handle.ledger.snapshotForBundle samplePlatform
        (SegmentState.after samplePlatform
          ([sampleReopen] ++ sampleAppends)).location 0 = .ok snapshot ∧
      snapshot.Accepted samplePlatform id [sampleKey 1] none) ∧
    ∃ snapshot,
      (ShardedLedger.new samplePlatform (sampleKey 1) []).evidenceSnapshot
        (StateRun.run (ShardSection.next "shard") {} ([] ++ [sampleSection]))
          0 = .ok snapshot ∧
      snapshot.Accepted samplePlatform StoredRecord.recordJson
        [sampleKey 1] none := by
  obtain ⟨hsingle, hsegmented, hsharded⟩ :=
    evidence_accepted samplePlatform [sampleKey 1] 0
  refine ⟨?_, ?_, ?_⟩
  · have hadmitted : StateRun.Admitted
        (World.step samplePlatform .unix "ledger")
        (Operation.ExportsTo samplePlatform .unix "ledger" [sampleKey 1])
        { file := none, session := none }
        ([.open (sampleKey 1) [] none none] ++
          [.append (sampleEntry .null) none]) := by
      refine ⟨⟨trivial, ?_⟩, ⟨(by decide : (sampleEntry .null).LineWithinLimit),
        ?_⟩, trivial⟩
      · rintro session ⟨⟩
        exact List.mem_singleton.mpr rfl
      · rintro session ⟨⟩
        exact List.mem_singleton.mpr rfl
    obtain ⟨snapshot, hsnapshot, hstands⟩ := hsingle _ _ _ _ _ hadmitted rfl
      (by decide)
    exact ⟨_, snapshot, rfl, hsnapshot, hstands.1⟩
  · have hadmitted : StateRun.Admitted (SegmentState.next samplePlatform)
        (fun state request =>
          LedgerCall.ExportsTo samplePlatform [sampleKey 1] state request)
        .start ([sampleReopen] ++ sampleAppends) := by
      refine ⟨⟨trivial, ?_⟩, ⟨(by decide : Entry.LineWithinLimit _), ?_⟩,
        ⟨(by decide : Entry.LineWithinLimit _), ?_⟩, trivial⟩
      · rintro handle ⟨⟩
        exact List.mem_singleton.mpr rfl
      · rintro handle ⟨⟩
        exact List.mem_singleton.mpr rfl
      · rintro handle ⟨⟩
        exact List.mem_singleton.mpr rfl
    obtain ⟨snapshot, hsnapshot, hstands⟩ := hsegmented _ _ _ hadmitted rfl
      (by decide)
    exact ⟨_, snapshot, rfl, hsnapshot, hstands.1⟩
  · have hadmitted : StateRun.Admitted (ShardSection.next "shard")
        (fun shard visit => visit.ExportsTo "shard" [sampleKey 1] shard) {}
        ([] ++ [sampleSection]) := by
      refine ⟨?_, trivial⟩
      rintro record ⟨⟩
      exact ⟨(by decide : Entry.LineWithinLimit _),
        List.mem_singleton.mpr rfl⟩
    obtain ⟨snapshot, hsnapshot, hstands⟩ := hsharded _ _ _
      (.new samplePlatform (sampleKey 1) []) hadmitted
      (List.mem_singleton.mpr rfl) (by decide)
    exact ⟨snapshot, hsnapshot, hstands.1⟩

end Decern

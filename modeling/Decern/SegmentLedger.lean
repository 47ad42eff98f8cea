import Decern.LedgerWriter
import Decern.SegmentManifest
import Mathlib.Tactic

/-!
# The segmented ledger

The handle of a segmented ledger appends to its manifest's active segment,
rolling over to a new one when its policy says so.
-/

namespace Decern

open ByteText (Bytes newline)
open LineText (cut joined)

variable (P : Platform)

/-- A ledger handle, with its policy, its manifest and the segment it has
open. -/
structure SegmentedLedger where
  ledger : Ledger
  policy : RolloverPolicy
  manifest : Manifest
  activeFile : String

namespace SegmentedLedger

def fail (handle : SegmentedLedger) : SegmentedLedger :=
  { handle with ledger := { handle.ledger with failed := true } }

/-- Whether the next append should roll over first. -/
def shouldRollOver (handle : SegmentedLedger) (currentBytes : ℕ)
    (nextTsMs : UInt64) : Bool :=
  let activeIsEmpty := handle.manifest.active.any fun active =>
    active.startSeq == handle.ledger.nextSeq
  let full := handle.policy.maxBytes.any fun max =>
    decide (max ≤ currentBytes)
  let opened := (handle.manifest.active.map SegmentMeta.openedMs).getD nextTsMs
  let elapsed := handle.policy.epochMs.any fun epoch =>
    decide (0 < epoch) && nextTsMs / epoch != opened / epoch
  !activeIsEmpty && (full || elapsed)

def rollOver (fault : Option SegmentFault) (dir : Directory)
    (handle : SegmentedLedger) (nextTsMs : UInt64) :
    Directory × SegmentedLedger × Except LedgerError Unit :=
  match rollOverSegments fault dir handle.manifest handle.ledger.nextSeq
      nextTsMs with
  | (dir, .error failed) =>
      (dir, if failed.landed then handle.fail else handle,
        .error failed.err)
  | (dir, .ok (rolled, file)) =>
      match SegmentFault.at fault .openNew with
      | some err => (dir, handle.fail, .error (.io file err))
      | none =>
          (dir, { handle with manifest := rolled, activeFile := file },
            .ok ())

/-- The manifest with its active segment opened at `tsMs`. -/
def rebased (manifest : Manifest) (tsMs : UInt64) : Manifest :=
  { manifest with
    segments := changeActive
      (fun segment => { segment with openedMs := tsMs }) manifest.segments }

/-- The active segment's first record sets when it was opened. -/
def rebase (fault : Option SegmentFault) (dir : Directory)
    (handle : SegmentedLedger) (tsMs : UInt64) :
    Directory × SegmentedLedger × Except LedgerError Unit :=
  if handle.manifest.active.any fun active =>
      active.startSeq == handle.ledger.nextSeq &&
        active.openedMs != tsMs then
    match saveManifest fault dir (rebased handle.manifest tsMs) with
    | (dir, .error failed) => (dir, handle, .error failed.error)
    | (dir, .ok ()) =>
        (dir, { handle with manifest := rebased handle.manifest tsMs },
          .ok ())
  else (dir, handle, .ok ())

/-- The steps of an append before its record is sealed. -/
def prepare (fault : Option SegmentFault) (dir : Directory)
    (handle : SegmentedLedger) (tsMs : UInt64) :
    Directory × SegmentedLedger × Except LedgerError Unit :=
  let currentBytes := match SegmentFault.at fault .metadata with
    | some _ => 0
    | none => ((dir.read handle.activeFile).getD []).length
  if handle.shouldRollOver currentBytes tsMs then
    match handle.rollOver fault dir tsMs with
    | (dir, handle, .error error) => (dir, handle, .error error)
    | (dir, handle, .ok ()) => handle.rebase fault dir tsMs
  else handle.rebase fault dir tsMs

def append (fault : Option SegmentFault) (writeFault : Option WriteFault)
    (dir : Directory) (handle : SegmentedLedger) (entry : Entry) :
    Directory × SegmentedLedger × Except LedgerError RecordOut :=
  if handle.ledger.failed then
    (dir, handle, .error (Ledger.failedErr handle.activeFile))
  else
    match handle.prepare fault dir entry.tsMs with
    | (dir, handle, .error error) => (dir, handle, .error error)
    | (dir, handle, .ok ()) =>
        match handle.ledger.append P handle.activeFile
            ((dir.read handle.activeFile).getD []) entry writeFault with
        | (ledger, content, result) =>
            (dir.write handle.activeFile content, { handle with ledger },
              result)

end SegmentedLedger

/-- The manifest an open works with. -/
def manifestToOpen (fault : Option SegmentFault) (dir : Directory) :
    Directory × Except LedgerError Manifest :=
  match loadManifest fault dir with
  | .error error => (dir, .error error)
  | .ok (some manifest) => (dir, .ok manifest)
  | .ok none => initializeSegments fault dir

/-- The head of a directory's segments, its last one healed. -/
def resolveSegments (openFault : Option OpenFault) (dir : Directory)
    (files : List LedgerFile) (verifiers : List VerifyingKey)
    (signer : VerifyingKey) (anchor : Option (Option Bytes)) :
    Directory × Except LedgerError VerifyReport :=
  match files.getLast? with
  | none =>
      (dir, (judgeOpenHead P [] verifiers signer anchor).map Prod.fst)
  | some last =>
      match resolveOpenHead P openFault files.dropLast last.path last.content
          verifiers signer anchor with
      | (content, result) => (dir.write last.path content, result)

/-- An open once it has its manifest. -/
def openManifest (openFault : Option OpenFault) (dir : Directory)
    (manifest : Manifest) (key : SigningKey) (verifiers : List VerifyingKey)
    (policy : RolloverPolicy) (anchor : Option (Option Bytes)) :
    Directory × Except LedgerError SegmentedLedger :=
  match manifest.active with
  | none =>
      (dir, .error (.io "." ("segmented ledger manifest has no active " ++
        "(unsealed) segment")))
  | some active =>
      match segmentPaths dir with
      | .error error => (dir, .error error)
      | .ok files =>
          match resolveSegments P openFault dir files verifiers
              (P.verifyingKey key) anchor with
          | (dir, .error error) => (dir, .error error)
          | (dir, .ok report) =>
              match failsAt openFault .append with
              | some err => (dir, .error (.io active.file err))
              | none =>
                  (dir, .ok
                    { ledger := Ledger.opened key verifiers report.root
                        report.entries report.signers
                      policy := policy
                      manifest := manifest
                      activeFile := active.file })

def openSegmentedInner (fault : Option SegmentFault)
    (openFault : Option OpenFault) (dir : Directory) (key : SigningKey)
    (retired : List VerifyingKey) (policy : RolloverPolicy)
    (anchor : Option (Option Bytes)) :
    Directory × Except LedgerError SegmentedLedger :=
  match SegmentFault.at fault .createDir with
  | some err => (dir, .error (.io "." err))
  | none =>
      match manifestToOpen fault dir with
      | (dir, .error error) => (dir, .error error)
      | (dir, .ok manifest) =>
          openManifest P openFault dir manifest key (keyring P key retired)
            policy anchor

/-! ## One directory and its writer -/

/-- The complete lines the manifest's segments hold. -/
def Directory.lines (dir : Directory) : List Bytes :=
  match segmentPaths dir with
  | .error _ => []
  | .ok files => files.flatMap fun file => (cut newline file.content).1

/-- A handle, the lines its head counts, and the entry of the append that
stopped it or was refused last. -/
structure SegmentSession where
  handle : SegmentedLedger
  lines : List Bytes
  pending : Option Entry

/-- A directory, the last handle on it and whether its process still runs. -/
structure SegmentWorld where
  directory : Directory
  session : Option SegmentSession
  running : Bool

inductive SegmentOperation where
  | «open» (key : SigningKey) (retired : List VerifyingKey)
      (policy : RolloverPolicy) (fault : Option SegmentFault)
      (openFault : Option OpenFault)
  | append (entry : Entry) (fault : Option SegmentFault)
      (writeFault : Option WriteFault)
  | stop

def SegmentOperation.WithinLimit : SegmentOperation → Prop
  | .append entry _ _ => entry.WithinLimit
  | _ => True

/-- One operation; a process that stops at a step leaves what a fault at the
next step leaves. -/
def SegmentWorld.step (world : SegmentWorld) (operation : SegmentOperation) :
    SegmentWorld :=
  match operation with
  | .open key retired policy fault openFault =>
      match openSegmentedInner P fault openFault world.directory key retired
          policy none with
      | (directory, .error _) =>
          { directory, session := world.session, running := false }
      | (directory, .ok handle) =>
          { directory
            session := some
              { handle, lines := directory.lines, pending := none }
            running := true }
  | .append entry fault writeFault =>
      match world.running, world.session with
      | true, some session =>
          match session.handle.append P fault writeFault world.directory
              entry with
          | (directory, handle, .ok record) =>
              { directory
                session := some
                  { handle
                    lines := session.lines ++ [recordLine P record]
                    pending := none }
                running := true }
          | (directory, handle, .error _) =>
              { directory
                session := some
                  { handle
                    lines := session.lines
                    pending := if session.handle.ledger.failed then
                        session.pending
                      else some entry }
                running := true }
      | _, _ => world
  | .stop => { world with running := false }

/-- A directory that did not exist, after some operations. -/
def SegmentWorld.after (operations : List SegmentOperation) : SegmentWorld :=
  StateRun.run (SegmentWorld.step P)
    { directory := { manifest := none, files := [] }
      session := none
      running := false } operations

end Decern

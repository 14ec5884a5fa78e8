import KubeNeuron.Agent.Journal
import KubeNeuron.Agent.SpoolEvent

/-!
# The event spool

Events that the controller did not take are kept in a file, one line each, and replayed from its
head. A replay sends events in order and then replaces the file by the rest; an append past the
bound replaces it by the newest events.

Every call names what the file system does to it (`Trouble`). A crash of the machine keeps what was
synced, some part of what was not, and a torn tail; while a replacement or creation of the file has
not been synced, it can bring the earlier file back. The model numbers the calls of `Append`.
-/

namespace KubeNeuron.Agent

open Lib

def maxEvents : Nat := 10000

/-- `bufio.MaxScanTokenSize`: the buffer that has to hold a line and its end. -/
def maxScanTokenSize : Nat := 64 * 1024

/-! ## Reading -/

/-- A carriage return at the end of a line is no part of it. -/
def dropCR (line : Str) : Str :=
  if line.getLast? = some 0x0D then line.dropLast else line

/-- One line of the scanner, none when the buffer does not hold it. -/
def scanPiece (piece : Str) : Option Str :=
  let line := if piece.getLast? = some 0x0A then piece.dropLast else piece
  if line.length < maxScanTokenSize then some (dropCR line) else none

/-- The lines of the scanner; it fails at the first one that is too long. -/
def scanLines (data : Str) : Option (List Str) :=
  ((splitAfter data).filter fun piece => piece ≠ []).mapM scanPiece

/-- `readLocked`: lines that cannot be read are skipped. -/
def readSpool (lo : Int → Int) (data : Str) : Option (List CapturedEvent) :=
  (scanLines data).map fun lines => lines.filterMap (decodeEvent lo)

/-- Everything through the last line end. -/
def committed (data : Str) : Str := (data.reverse.dropWhile fun b => b ≠ 0x0A).reverse

/-! ## The state -/

/-- The file: its content, the number of bytes that a crash keeps, and the calls of its lines. -/
structure SpoolFile where
  content : Str
  synced : Nat
  calls : List Nat

/-- The file under the spool's name, and the files that were under it and can come back. -/
structure SpoolDisk where
  file : SpoolFile
  older : List SpoolFile

/-- `Spool`, with the local zone of its process. -/
structure Spool where
  lo : Int → Int
  count : Nat
  dirty : Bool

/-- Why a call fails. -/
inductive SpoolError where
  | io
  | tooLong
  | encode
  | argument
  | send
  | canceled
  deriving DecidableEq

inductive SpoolCaller where
  | launch
  | append
  | replay
  deriving DecidableEq

/-- What has happened: an append reported success, an event was sent, events were dropped and others
kept, a call failed. -/
inductive Happened where
  | accepted (call : Nat)
  | tried (call : Nat) (event : CapturedEvent) (delivered : Bool)
  | dropped (calls kept : List Nat)
  | failed (caller : SpoolCaller) (error : SpoolError)
  deriving DecidableEq

/-- The disk, the process, the events handed to `Append`, and what has happened (the newest
first). -/
structure SpoolWorld where
  disk : SpoolDisk
  spool : Option Spool
  events : List CapturedEvent
  history : List Happened

/-- Before the first process. The creation of the file is not synced, so a crash can bring its
absence back. -/
def SpoolWorld.start : SpoolWorld := ⟨⟨⟨[], 0, []⟩, [⟨[], 0, []⟩]⟩, none, [], []⟩

/-- What happens to a change of the file: nothing goes wrong; it fails before it takes effect; it
takes effect and is not synced; or it is synced and then an error is reported. -/
inductive Trouble where
  | none
  | before
  | unsynced
  | after
  deriving DecidableEq

/-! ## Repair and replacement -/

/-- `repairTornTailLocked`. -/
def repairTornTail (trouble : Trouble) (f : SpoolFile) : SpoolFile × Bool :=
  if f.content = [] ∨ f.content.getLast? = some 0x0A then (f, trouble ≠ .before)
  else
    let kept := committed f.content
    match trouble with
    | .none => ({ f with content := kept, synced := kept.length }, true)
    | .before => (f, false)
    | .unsynced => ({ f with content := kept, synced := min f.synced kept.length }, false)
    | .after => ({ f with content := kept, synced := kept.length }, false)

/-- The events of the file, when the file can be opened and read. -/
def SpoolFile.read (lo : Int → Int) (readable : Bool) (f : SpoolFile) :
    Except SpoolError (List CapturedEvent) :=
  if !readable then .error .io
  else
    match readSpool lo f.content with
    | none => .error .tooLong
    | some events => .ok events

/-- `healTornTailLocked`. -/
def heal (trouble : Trouble) (readable : Bool) (s : Spool) (f : SpoolFile) :
    SpoolFile × Except SpoolError Spool :=
  if !s.dirty then (f, .ok s)
  else
    match repairTornTail trouble f with
    | (f, false) => (f, .error .io)
    | (f, true) => (f, (f.read s.lo readable).map fun events => ⟨s.lo, events.length, false⟩)

/-- The file of some events. -/
def spoolLines (lines : List Str) : Str := lines.flatMap fun line => line ++ [0x0A]

/-- `rewriteLocked`: the error, and whether the file was replaced. -/
def rewriteSpool (lo : Int → Int) (trouble : Trouble) (events : List CapturedEvent)
    (calls : List Nat)
    (d : SpoolDisk) : SpoolDisk × Option SpoolError :=
  match events.mapM (encodeEvent lo) with
  | none => (d, some .encode)
  | some lines =>
    let file : SpoolFile := ⟨spoolLines lines, (spoolLines lines).length, calls⟩
    match trouble with
    | .none => (⟨file, []⟩, none)
    | .before => (d, some .io)
    | .unsynced => (⟨file, d.file :: d.older⟩, some .io)
    | .after => (⟨file, []⟩, some .io)

/-! ## The calls -/

/-- What the file system does to an append. A write that fails has written some bytes. -/
structure AppendFaults where
  repair : Trouble
  reread : Bool
  opened : Bool
  written : Option Nat
  sync : Bool
  read : Bool
  rewrite : Trouble

/-- Nothing goes wrong. -/
def AppendFaults.none : AppendFaults := ⟨.none, true, true, .none, true, true, .none⟩

/-- What happens to an event that is about to be sent. -/
inductive Answer where
  | delivered
  | refused
  | canceled

/-- What the file system and the receiver do to a replay. -/
structure ReplayFaults where
  repair : Trouble
  reread : Bool
  read : Bool
  answers : Nat → Answer
  rewrite : Trouble

/-- Nothing goes wrong. -/
def ReplayFaults.none : ReplayFaults := ⟨.none, true, true, fun _ => .delivered, .none⟩

namespace SpoolWorld

variable (w : SpoolWorld)

def fail (caller : SpoolCaller) (error : SpoolError) : SpoolWorld :=
  { w with history := .failed caller error :: w.history }

/-- The file is replaced by its events without the `excess` oldest, and the append that did so
answers. -/
def keepNewest (s : Spool) (call : Nat) (events : List CapturedEvent) (excess : Nat)
    (trouble : Trouble) : SpoolWorld :=
  let calls := w.disk.file.calls
  match rewriteSpool s.lo trouble (events.drop excess) (calls.drop excess) w.disk with
  | (disk, result) =>
    let history :=
      if excess = 0 ∨ trouble = .before ∨ result = some .encode then w.history
      else .dropped (calls.take excess) (calls.drop excess) :: w.history
    match result with
    | some error => SpoolWorld.fail { w with disk, history } .append error
    | none =>
      { w with
        disk
        spool := some { s with count := (events.drop excess).length }
        history := .accepted call :: history }

/-- `truncateLocked`, and the answer of the append that called it. -/
def truncate (s : Spool) (call : Nat) (faults : AppendFaults) : SpoolWorld :=
  match w.disk.file.read s.lo faults.read with
  | .error error => w.fail .append error
  | .ok events => w.keepNewest s call events (events.length - maxEvents) faults.rewrite

/-- `Append` behind the repair. -/
def write (s : Spool) (call : Nat) (event : CapturedEvent) (faults : AppendFaults) : SpoolWorld :=
  if !faults.opened then w.fail .append .io
  else
    match encodeEvent s.lo event with
    | none => w.fail .append .encode
    | some line =>
      let f := w.disk.file
      match faults.written with
      | some n =>
        -- a failed write may have written the whole line
        let calls := if line.length < n then f.calls ++ [call] else f.calls
        let file : SpoolFile := ⟨f.content ++ (line ++ [0x0A]).take n, f.synced, calls⟩
        SpoolWorld.fail { w with
          disk := ⟨file, w.disk.older⟩, spool := some { s with dirty := true } }
          .append .io
      | none =>
        let content := f.content ++ (line ++ [0x0A])
        if !faults.sync then
          SpoolWorld.fail { w with
            disk := ⟨⟨content, f.synced, f.calls ++ [call]⟩, w.disk.older⟩
            spool := some { s with dirty := true } } .append .io
        else
          let s := { s with count := s.count + 1 }
          let w := { w with
            disk := ⟨⟨content, content.length, f.calls ++ [call]⟩, w.disk.older⟩
            spool := some s }
          if s.count ≤ maxEvents then { w with history := .accepted call :: w.history }
          else w.truncate s call faults

def append (s : Spool) (event : CapturedEvent) (faults : AppendFaults) : SpoolWorld :=
  let call := w.events.length
  let w := { w with events := w.events ++ [event] }
  match heal faults.repair faults.reread s w.disk.file with
  | (file, .error error) => SpoolWorld.fail { w with disk := ⟨file, w.disk.older⟩ } .append error
  | (file, .ok s) =>
    SpoolWorld.write { w with disk := ⟨file, w.disk.older⟩, spool := some s } s call event faults

end SpoolWorld

/-- The sends of a replay from the `i`-th event on: how many succeeded, what happened (the newest
first), and the error that ended them. -/
def sendFrom (answers : Nat → Answer) (calls : List Nat) :
    Nat → List CapturedEvent → Nat × List Happened × Option SpoolError
  | _, [] => (0, [], none)
  | i, event :: events =>
    match answers i with
    | .canceled => (0, [], some .canceled)
    | .refused => (0, [.tried (calls.getD i 0) event false], some .send)
    | .delivered =>
      let rest := sendFrom answers calls (i + 1) events
      (rest.1 + 1, rest.2.1 ++ [.tried (calls.getD i 0) event true], rest.2.2)

namespace SpoolWorld

variable (w : SpoolWorld)

/-- `ReplayBatch` behind the repair. -/
def send (s : Spool) (limit : Nat) (faults : ReplayFaults) : SpoolWorld :=
  match w.disk.file.read s.lo faults.read with
  | .error error => w.fail .replay error
  | .ok events =>
    let calls := w.disk.file.calls
    let sends := sendFrom faults.answers calls 0 (events.take limit)
    let w := { w with history := sends.2.1 ++ w.history }
    -- the error of the sends is the error of the call
    let answer := fun w : SpoolWorld => sends.2.2.elim w (w.fail .replay)
    if sends.1 = 0 then answer w
    else
      match rewriteSpool s.lo faults.rewrite (events.drop sends.1) (calls.drop sends.1) w.disk with
      | (disk, some error) => SpoolWorld.fail { w with disk } .replay error
      | (disk, none) =>
        answer { w with disk, spool := some { s with count := events.length - sends.1 } }

/-- `ReplayBatch`. -/
def replay (s : Spool) (limit : Int) (hasSend : Bool) (faults : ReplayFaults) : SpoolWorld :=
  if limit ≤ 0 ∨ hasSend = false then w.fail .replay .argument
  else
    match heal faults.repair faults.reread s w.disk.file with
    | (file, .error error) => SpoolWorld.fail { w with disk := ⟨file, w.disk.older⟩ } .replay error
    | (file, .ok s) =>
      SpoolWorld.send { w with disk := ⟨file, w.disk.older⟩, spool := some s } s limit.toNat faults

/-- `Open` in a process with the local zone `lo`. -/
def openSpool (lo : Int → Int) (opened : Bool) (repair : Trouble) (read : Bool) : SpoolWorld :=
  if !opened then w.fail .launch .io
  else
    match repairTornTail repair w.disk.file with
    | (file, false) => SpoolWorld.fail { w with disk := ⟨file, w.disk.older⟩ } .launch .io
    | (file, true) =>
      let w := { w with disk := ⟨file, w.disk.older⟩ }
      match file.read lo read with
      | .error error => w.fail .launch error
      | .ok events => { w with spool := some ⟨lo, events.length, false⟩ }

end SpoolWorld

/-- What a crash leaves of a file: what was synced and perhaps more, and a torn tail. -/
def SpoolFile.crash (kept : Nat) (tail : Str) (f : SpoolFile) : SpoolFile :=
  let left := f.content.take kept
  ⟨left ++ tail, (left ++ tail).length, f.calls.take (left.count 0x0A)⟩

/-! ## Runs -/

/-- The steps: a process opens the spool, its calls, its end, and a crash of the machine, which
finds the file or one of the older ones. -/
inductive SpoolOp where
  | launch (lo : Int → Int) (opened : Bool) (repair : Trouble) (read : Bool)
  | append (event : CapturedEvent) (faults : AppendFaults)
  | replay (limit : Int) (hasSend : Bool) (faults : ReplayFaults)
  | exit
  | crash (version kept : Nat) (tail : Str)

/-- The file that a crash finds. -/
def SpoolDisk.version (d : SpoolDisk) (i : Nat) : Option SpoolFile := (d.file :: d.older)[i]?

def spoolNext (w : SpoolWorld) : SpoolOp → Option SpoolWorld
  | .launch lo opened repair read =>
    if w.spool.isSome then none else some (w.openSpool lo opened repair read)
  | .append event faults => w.spool.map fun s => w.append s event faults
  | .replay limit hasSend faults => w.spool.map fun s => w.replay s limit hasSend faults
  | .exit => some { w with spool := none }
  | .crash version kept tail =>
    (w.disk.version version).bind fun f =>
      if f.synced ≤ kept ∧ (0x0A : UInt8) ∉ tail then
        -- the directory is settled by the crash: no other version comes back after it
        some { w with disk := ⟨f.crash kept tail, []⟩, spool := none }
      else none

end KubeNeuron.Agent

import Mathlib.Algebra.Order.Ring.Nat
import Mathlib.Data.List.Infix
import Mathlib.Tactic.Common
import Muduo.Support.Checked

/-! # `FileUtil`

`AppendFile` and `ReadSmallFile::readToString` of `base/FileUtil.cpp`. The system may write or read less than
it is asked for; how much it does is up to the environment, call by call. What `fwrite_unlocked` accepts waits
in the buffer of the `FILE` and is sure to be in the file only after a `flush()`. -/

namespace Muduo.FileUtil

open Support

/-- `FileUtil::AppendFile`, a file that is written at its end. -/
structure AppendFile where
  filename : List UInt8
  /-- What `fwrite_unlocked` has accepted. -/
  content : List UInt8
  /-- How much of it is flushed. -/
  flushed : Nat
  writtenBytes : Nat
  deriving DecidableEq, Repr

namespace AppendFile

/-- The constructor; `fp` says whether `fopen` has given a stream. -/
def new (filename : List UInt8) (fp : Bool) : Checked AppendFile := do
  assert fp "fp_"
  return { filename, content := [], flushed := 0, writtenBytes := 0 }

/-- `fwrite_unlocked` accepts some of the bytes it is given, in its call number `i`. -/
def write (writes : Nat → Nat) (i : Nat) (logline : List UInt8) : Nat := min (writes i) logline.length

/-- The loop `while (remain > 0)` of `append`: the bytes it gets accepted. Every turn but the last one writes
something, so the length of what remains bounds their number. -/
def writeLoop (writes : Nat → Nat) : Nat → Nat → List UInt8 → List UInt8
  | 0, _, _ => []
  | turns + 1, i, remain =>
      if remain.isEmpty then []
      else
        let x := write writes i remain
        if x = 0 then [] else remain.take x ++ writeLoop writes turns (i + 1) (remain.drop x)

/-- The bytes of a line that `append` gets accepted: a first call, and the loop. -/
def accepted (writes : Nat → Nat) (logline : List UInt8) : List UInt8 :=
  let n := write writes 0 logline
  logline.take n ++ writeLoop writes logline.length 1 (logline.drop n)

/-- `append(logline, len)`: the length is counted even when not all is written. -/
def append (file : AppendFile) (writes : Nat → Nat) (logline : List UInt8) : AppendFile :=
  { file with
    content := file.content ++ accepted writes logline
    writtenBytes := file.writtenBytes + logline.length }

/-- `AppendFile::flush`: what is written reaches the file. -/
def flush (file : AppendFile) : AppendFile := { file with flushed := file.content.length }

/-- The loop stops at the end of the line or at a call that writes nothing: what is left then is what it
could not write. -/
theorem writeLoop_spec (writes : Nat → Nat) {turns i : Nat} {remain : List UInt8} (h : remain.length ≤ turns) :
    ∃ rest, writeLoop writes turns i remain ++ rest = remain ∧ (rest ≠ [] → ∃ j ≥ i, writes j = 0) := by
  induction turns generalizing i remain with
  | zero =>
      obtain rfl := List.eq_nil_of_length_eq_zero (Nat.le_zero.mp h)
      exact ⟨[], rfl, fun hne => absurd rfl hne⟩
  | succ turns ih =>
      unfold writeLoop
      split
      · next hempty => exact ⟨[], (List.isEmpty_iff.mp hempty).symm, fun hne => absurd rfl hne⟩
      · next hempty =>
          have hpos : 0 < remain.length :=
            List.length_pos_iff.mpr fun hnil => hempty (List.isEmpty_iff.mpr hnil)
          dsimp only
          split
          · next hx =>
              refine ⟨remain, rfl, fun _ => ⟨i, Nat.le_refl i, ?_⟩⟩
              unfold write at hx
              omega
          · next hx =>
              have hdrop : (remain.drop (write writes i remain)).length ≤ turns := by
                rw [List.length_drop]
                omega
              obtain ⟨rest, hrest, hzero⟩ := ih (i := i + 1) hdrop
              refine ⟨rest, by rw [List.append_assoc, hrest, List.take_append_drop], fun hne => ?_⟩
              obtain ⟨j, hj, hwrites⟩ := hzero hne
              exact ⟨j, Nat.le_of_succ_le hj, hwrites⟩

/-- `append` writes a beginning of the line, and all of it unless a later call writes nothing. -/
theorem accepted_spec (writes : Nat → Nat) (logline : List UInt8) :
    ∃ rest, accepted writes logline ++ rest = logline ∧ (rest ≠ [] → ∃ i ≥ 1, writes i = 0) := by
  have hdrop : (logline.drop (write writes 0 logline)).length ≤ logline.length := by
    rw [List.length_drop]
    exact Nat.sub_le _ _
  obtain ⟨rest, hrest, hzero⟩ := writeLoop_spec writes (i := 1) hdrop
  exact ⟨rest, by rw [accepted, List.append_assoc, hrest, List.take_append_drop], hzero⟩

/-- A file that takes something at each write takes the whole line. -/
theorem accepted_eq {writes : Nat → Nat} (h : ∀ i ≥ 1, 0 < writes i) (logline : List UInt8) :
    accepted writes logline = logline := by
  obtain ⟨rest, hrest, hzero⟩ := accepted_spec writes logline
  have hnil : rest = [] := by
    by_contra hne
    obtain ⟨i, hi, hwrites⟩ := hzero hne
    exact absurd (h i hi) (by omega)
  rwa [hnil, List.append_nil] at hrest

/-- A call of a user of the file, `append` with what its calls of `fwrite_unlocked` do. -/
inductive Call where
  | append (logline : List UInt8) (writes : Nat → Nat)
  | flush

/-- The lines of a call. -/
def Call.lines : Call → List (List UInt8)
  | .append logline _ => [logline]
  | .flush => []

/-- The calls of `fwrite_unlocked` may be short, but they do not fail. -/
def Call.Writes : Call → Prop
  | .append _ writes => ∀ i ≥ 1, 0 < writes i
  | .flush => True

/-- One call. -/
def exec (file : AppendFile) : Call → AppendFile
  | .append logline writes => file.append writes logline
  | .flush => file.flush

/-- The calls one after the other. -/
def run (file : AppendFile) (calls : List Call) : AppendFile := calls.foldl exec file

/-- What a reader may find in the file: all that is flushed, and what of the rest the buffer of the `FILE` had
no room for. -/
def OnDisk (file : AppendFile) (disk : List UInt8) : Prop :=
  disk <+: file.content ∧ file.flushed ≤ disk.length

/-- A call adds its lines. -/
theorem content_exec {call : Call} (h : call.Writes) (file : AppendFile) :
    (file.exec call).content = file.content ++ call.lines.flatten := by
  cases call with
  | append logline writes =>
      change file.content ++ accepted writes logline = file.content ++ (logline ++ [])
      rw [accepted_eq h, List.append_nil]
  | flush => exact (List.append_nil _).symm

/-- After the calls the stream has accepted their lines, in order. -/
theorem content_run {calls : List Call} (h : ∀ call ∈ calls, call.Writes) (file : AppendFile) :
    (file.run calls).content = file.content ++ (calls.flatMap Call.lines).flatten := by
  induction calls generalizing file with
  | nil => exact (List.append_nil _).symm
  | cons call calls ih =>
      have hrest := ih (fun c hc => h c (List.mem_cons_of_mem _ hc)) (file.exec call)
      rw [content_exec (h call List.mem_cons_self), List.append_assoc, ← List.flatten_append] at hrest
      exact hrest

/-- Flushed bytes stay flushed. -/
theorem le_flushed_run {n : Nat} (calls : List Call) {file : AppendFile} (hflushed : n ≤ file.flushed)
    (hcontent : n ≤ file.content.length) : n ≤ (file.run calls).flushed := by
  induction calls generalizing file with
  | nil => exact hflushed
  | cons call calls ih =>
      cases call with
      | append logline writes =>
          refine ih (show n ≤ (file.append writes logline).flushed from hflushed) ?_
          change n ≤ (file.content ++ accepted writes logline).length
          rw [List.length_append]
          omega
      | flush => exact ih (show n ≤ file.flush.flushed from hcontent) hcontent

/-- The lines before a `flush()` are in the file. -/
theorem OnDisk.of_flush {file : AppendFile} {before after : List Call} {disk : List UInt8}
    (hcalls : ∀ call ∈ before ++ .flush :: after, call.Writes)
    (h : (file.run (before ++ .flush :: after)).OnDisk disk) :
    file.content ++ (before.flatMap Call.lines).flatten <+: disk := by
  have hrun : file.run (before ++ .flush :: after) = (file.run before).flush.run after :=
    List.foldl_append ..
  have hbefore := content_run (fun call hcall => hcalls call (List.mem_append_left _ hcall)) file
  have hprefix : (file.run before).content <+: (file.run (before ++ .flush :: after)).content := by
    rw [hbefore, content_run hcalls, List.flatMap_append, List.flatten_append, ← List.append_assoc]
    exact List.prefix_append _ _
  have hflushed : (file.run before).content.length ≤ (file.run (before ++ .flush :: after)).flushed := by
    rw [hrun]
    exact le_flushed_run after (Nat.le_refl _) (Nat.le_refl _)
  rw [← hbefore]
  exact List.prefix_of_prefix_length_le hprefix h.1 (Nat.le_trans hflushed h.2)

end AppendFile

/-! ## `ReadSmallFile` -/

/-- `sizeof(buf_)` -/
def kBufferSize : Nat := 64 * 1024

/-- `read(fd_, buf_, toRead)` in call number `i`: some of the bytes that are left, or a negative `errno`. -/
def read (reads : Nat → Int) (i toRead : Nat) (left : List UInt8) : Int :=
  if reads i < 0 then reads i else min (reads i) (min toRead left.length)

/-- The loop of `readToString`, with the `err`, the `content` and what is left of the file. Every turn but the
last one reads a byte, so the length of what is left bounds their number. -/
def readLoop (maxSize : Nat) (reads : Nat → Int) :
    Nat → Nat → Int → List UInt8 → List UInt8 → Int × List UInt8
  | 0, _, err, content, _ => (err, content)
  | turns + 1, i, err, content, left =>
      if content.length < maxSize then
        let toRead := min (maxSize - content.length) kBufferSize
        let n := read reads i toRead left
        if 0 < n then
          readLoop maxSize reads turns (i + 1) err (content ++ left.take n.toNat) (left.drop n.toNat)
        else if n < 0 then (-n, content)
        else (err, content)
      else (err, content)

/-- `implicit_cast<size_t>(maxSize)` -/
def sizeLimit (maxSize : Int) : Nat := (maxSize % 2 ^ 64).toNat

/-- What `st_mode` says. -/
inductive FileMode where
  | regular
  | directory
  | other
  deriving DecidableEq, Repr

/-- The fields of `struct stat` that are used. -/
structure FileStat where
  mode : FileMode
  size : Int
  mtime : Int
  ctime : Int
  deriving DecidableEq, Repr

/-- What the pointers of a caller of `readToString` point to; all but `content` may be `NULL`. -/
structure Outputs where
  content : List UInt8
  fileSize : Option Int
  modifyTime : Option Int
  createTime : Option Int
  deriving DecidableEq, Repr

/-- `EISDIR` -/
def eISDIR : Int := 21

/-- The part of `readToString` about `fstat`, which is for a caller that wants the size. `reserve` throws when
a negative `maxSize` has become too large a size. -/
def readStat (maxSize : Int) (stat : Except Int FileStat) (err : Int) (out : Outputs) :
    Checked (Int × Outputs) :=
  if out.fileSize.isSome then
    match stat with
    | .error errno => return (errno, out)
    | .ok statbuf => do
        let timed := { out with
          modifyTime := out.modifyTime.map fun _ => statbuf.mtime
          createTime := out.createTime.map fun _ => statbuf.ctime }
        match statbuf.mode with
        | .regular =>
            assert (0 ≤ min maxSize statbuf.size) "std::length_error"
            return (err, { timed with fileSize := some statbuf.size })
        | .directory => return (eISDIR, timed)
        | .other => return (err, timed)
  else return (err, out)

/-- `ReadSmallFile(filename).readToString(..)`: the returned `errno`, and what the pointers point to then. The
file is its bytes, or the `errno` of `open`, with which everything is left as it was. -/
def readToString (maxSize : Int) (stat : Except Int FileStat) (reads : Nat → Int) (out : Outputs) :
    Except Int (List UInt8) → Checked (Int × Outputs)
  | .error errno => return (errno, out)
  | .ok bytes => do
      let (err, out) ← readStat maxSize stat 0 { out with content := [] }
      let (err, content) := readLoop (sizeLimit maxSize) reads (bytes.length + 1) 0 err [] bytes
      return (err, { out with content })

/-- Of a regular file `readStat` takes the size and the times, and finds no error. -/
theorem readStat_sat {maxSize : Int} {stat : Except Int FileStat} (err : Int) (out : Outputs)
    (hstat : out.fileSize.isSome → ∃ statbuf, stat = .ok statbuf ∧ statbuf.mode = .regular ∧
      0 ≤ min maxSize statbuf.size) :
    (readStat maxSize stat err out).Sat fun p => p.1 = err := by
  unfold readStat
  split
  · next hsome =>
      obtain ⟨statbuf, rfl, hmode, hsize⟩ := hstat hsome
      dsimp only
      rw [hmode]
      exact .assert hsize (.ok rfl)
  · exact .ok rfl

/-- A `read` that does not fail gives at most what is there. -/
theorem read_nonneg {reads : Nat → Int} {i toRead : Nat} {left : List UInt8} (h : 0 ≤ reads i) :
    read reads i toRead left = min (reads i) (min toRead left.length) := if_neg (by omega)

/-- The `read` that fails. -/
theorem read_neg {reads : Nat → Int} {i toRead : Nat} {left : List UInt8} :
    read reads i toRead left < 0 ↔ reads i < 0 := by
  unfold read
  split <;> omega

/-- How the loop of `readToString` can end, with `more` read and `rest` left: with the `errno` it had, when
there are `maxSize` bytes or a call has read nothing, or with that of a failed call. -/
def Ends (maxSize : Nat) (reads : Nat → Int) (err : Int) (content rest : List UInt8)
    (result : Int × List UInt8) : Prop :=
  result.2 = content ∧ content.length ≤ maxSize ∧
    ((result.1 = err ∧ (content.length = maxSize ∨ rest = [] ∨ ∃ i, reads i = 0)) ∨
      ∃ i, reads i < 0 ∧ result.1 = -reads i)

/-- The loop of `readToString` ends so, having read a beginning of what was left. -/
theorem readLoop_ends (maxSize : Nat) (reads : Nat → Int) (turns i : Nat) (err : Int)
    (content left : List UInt8) (hturns : left.length < turns) (hsize : content.length ≤ maxSize) :
    ∃ more rest, left = more ++ rest ∧
      Ends maxSize reads err (content ++ more) rest (readLoop maxSize reads turns i err content left) := by
  -- the loop ends here, without another byte
  have hstop {content left : List UInt8} {result : Int × List UInt8}
      (hend : Ends maxSize reads err content left result) :
      ∃ more rest, left = more ++ rest ∧ Ends maxSize reads err (content ++ more) rest result :=
    ⟨[], left, rfl, by rwa [List.append_nil]⟩
  induction turns generalizing i content left with
  | zero => exact absurd hturns (Nat.not_lt_zero _)
  | succ turns ih =>
      unfold readLoop
      split
      · next hlt =>
          dsimp only
          set n := read reads i (min (maxSize - content.length) kBufferSize) left with hn
          split
          · next hpos =>
              have hreads : 0 ≤ reads i := by
                by_contra hneg
                have hn' : n < 0 := read_neg.mpr (Int.not_le.mp hneg)
                omega
              rw [read_nonneg hreads] at hn
              have hlength : (content ++ left.take n.toNat).length = content.length + n.toNat := by
                rw [List.length_append, List.length_take]
                omega
              have hdrop : (left.drop n.toNat).length < turns := by
                rw [List.length_drop]
                omega
              obtain ⟨more, rest, hleft, hend⟩ := ih (i + 1) (content ++ left.take n.toNat) (left.drop n.toNat)
                hdrop (by rw [hlength]; omega)
              refine ⟨left.take n.toNat ++ more, rest, ?_, ?_⟩
              · rw [List.append_assoc, ← hleft, List.take_append_drop]
              · rwa [List.append_assoc] at hend
          · next hpos =>
              split
              · next hneg =>
                  have hreads := read_neg.mp hneg
                  exact hstop ⟨rfl, hsize, .inr ⟨i, hreads, by rw [hn, read, if_pos hreads]⟩⟩
              · next hneg =>
                  have hreads : 0 ≤ reads i := Int.not_lt.mp fun hlt => hneg (read_neg.mpr hlt)
                  rw [read_nonneg hreads] at hn
                  refine hstop ⟨rfl, hsize, .inl ⟨rfl, .inr ?_⟩⟩
                  by_cases hzero : reads i = 0
                  · exact .inr ⟨i, hzero⟩
                  · have hbuffer : 0 < kBufferSize := by decide
                    exact .inl (List.eq_nil_of_length_eq_zero (by omega))
      · next hlt => exact hstop ⟨rfl, hsize, .inl ⟨rfl, .inl (by omega)⟩⟩

/-- **Written and read back.** A user appends lines to a file and flushes it, in any order, with writes that
may be short but do not fail; the file had the bytes `existing` before. A reader comes at any time, with reads
that may be short but give something as long as something is left. `readToString` then has a beginning of the
file as it is with all the lines, at most `maxSize` bytes. When it returns no error it has up to that size all
that is on the disk, among it all lines before a `flush()`; an error is that of a read. -/
theorem readToString_run {filename : List UInt8} {fp : Bool} {file : AppendFile}
    (hfile : AppendFile.new filename fp = .ok file) {calls : List AppendFile.Call}
    (hcalls : ∀ call ∈ calls, call.Writes) (existing disk : List UInt8)
    (hdisk : (file.run calls).OnDisk disk) {reads : Nat → Int} (hreads : ∀ i, reads i ≠ 0) (maxSize : Int)
    (stat : Except Int FileStat) (out : Outputs)
    (hstat : out.fileSize.isSome → ∃ statbuf, stat = .ok statbuf ∧ statbuf.mode = .regular ∧
      0 ≤ min maxSize statbuf.size) :
    ∃ err out', readToString maxSize stat reads out (.ok (existing ++ disk)) = .ok (err, out') ∧
      out'.content <+: existing ++ (calls.flatMap AppendFile.Call.lines).flatten ∧
      out'.content.length ≤ sizeLimit maxSize ∧
      (err = 0 → out'.content = (existing ++ disk).take (sizeLimit maxSize) ∧
        ∀ before after, calls = before ++ .flush :: after →
          (existing ++ (before.flatMap AppendFile.Call.lines).flatten).take (sizeLimit maxSize)
            <+: out'.content) ∧
      (err ≠ 0 → ∃ i, reads i < 0 ∧ err = -reads i) := by
  obtain ⟨-, hfile⟩ := Checked.assert_bind_eq_ok.mp hfile
  cases hfile
  obtain ⟨⟨err, out'⟩, hread, herr⟩ := readStat_sat 0 { out with content := [] } hstat
  cases herr
  obtain ⟨more, rest, hleft, hcontent, hlength, hend⟩ :=
    readLoop_ends (sizeLimit maxSize) reads ((existing ++ disk).length + 1) 0 0 [] (existing ++ disk)
      (Nat.lt_succ_self _) (Nat.zero_le _)
  rw [List.nil_append] at hcontent hlength hend
  refine ⟨(readLoop (sizeLimit maxSize) reads ((existing ++ disk).length + 1) 0 0 [] (existing ++ disk)).1,
    { out' with content := more }, ?_, ?_, hlength, fun hzero => ?_, fun hne => ?_⟩
  · rw [readToString, hread, ← hcontent]
    rfl
  · have hall := AppendFile.content_run hcalls
      { filename, content := [], flushed := 0, writtenBytes := 0 }
    rw [List.nil_append] at hall
    have hmore : more <+: existing ++ disk := hleft ▸ List.prefix_append _ _
    exact hmore.trans ((List.prefix_append_right_inj existing).mpr (hall ▸ hdisk.1))
  · have htake : more = (existing ++ disk).take (sizeLimit maxSize) := by
      rcases hend with ⟨-, hfull | hnil | ⟨i, hi⟩⟩ | ⟨i, hi, herr⟩
      · rw [hleft, ← hfull, List.take_left]
      · rw [hleft, hnil, List.append_nil, List.take_of_length_le hlength]
      · exact absurd hi (hreads i)
      · omega
    refine ⟨htake, ?_⟩
    rintro before after rfl
    have hflushed : existing ++ (before.flatMap AppendFile.Call.lines).flatten <+: existing ++ disk :=
      (List.prefix_append_right_inj existing).mpr (AppendFile.OnDisk.of_flush hcalls hdisk)
    rw [htake]
    exact hflushed.take _
  · rcases hend with ⟨hzero, -⟩ | hfailed
    · exact absurd hzero hne
    · exact hfailed

/-- Two lines are appended, and the first one is flushed; a reader that may read up to three bytes, two at a
time, comes before the second line is written out. -/
theorem readToString_run_flushed : ∃ err out',
    readToString 3 (.ok ⟨.regular, 2, 100, 100⟩) (fun _ => 2) ⟨[63], some 0, none, some 0⟩
      (.ok ([] ++ [104, 105])) = .ok (err, out') ∧
    (err = 0 → [104, 105] <+: out'.content) ∧ (err = 0 ∧ out' = ⟨[104, 105], some 2, none, some 100⟩) := by
  have hfile : AppendFile.new [108, 111, 103] true = .ok ⟨[108, 111, 103], [], 0, 0⟩ := rfl
  have hcalls : ∀ call ∈ [AppendFile.Call.append [104, 105] fun _ => 1, .flush, .append [33, 10] fun _ => 1],
      call.Writes := by
    simp [AppendFile.Call.Writes]
  obtain ⟨err, out', hread, -, -, hzero, -⟩ := readToString_run hfile hcalls [] [104, 105]
    ⟨⟨[33, 10], rfl⟩, Nat.le_refl 2⟩ (fun (_ : Nat) => (by decide : (2 : Int) ≠ 0)) 3
    (.ok ⟨.regular, 2, 100, 100⟩) ⟨[63], some 0, none, some 0⟩ (fun _ => ⟨_, rfl, rfl, by decide⟩)
  refine ⟨err, out', hread, fun h => ?_, ?_⟩
  · exact (hzero h).2 [.append [104, 105] fun _ => 1] [.append [33, 10] fun _ => 1] rfl
  · cases hread.symm.trans rfl
    exact ⟨rfl, rfl⟩

end Muduo.FileUtil

import MyOS.ProcTable
import MyOS.UserCopy

namespace MyOS

/-!
# What the system calls do with user addresses

Each system call that takes an address, as far as it reaches user memory.  What
the rest of the kernel contributes to a call (the bytes of a file or a pipe,
the keys typed, how much of a chunk was written, whether pages are free) is a
parameter, so that the results hold whatever it is.

Two properties are decided here: which entries of the page table the kernel
goes through, and whether `walk` panics.
-/

/-- `MAXARG` -/
def MAXARG : Nat := 32

/-- The fields of `struct file` that the calls look at. -/
structure UserFile where
  type : FileType
  readable : Bool
  writable : Bool
  deriving Repr, DecidableEq

/-- The calling process. -/
structure UserProcess extends UserSpace where
  ofile : Fin NOFILE → Option UserFile
  /-- The text that `sys_getcwd` copies, with its terminating zero. -/
  cwd : List UInt8

/-- What the rest of the kernel contributes to a call. -/
structure KernelAnswers where
  /-- What `filewrite` or `pipewrite` returns for the chunks, in order. -/
  written : Nat → Int
  /-- What `consgetc` returns to the turns of the loop; none to stop it. -/
  keys : Nat → Option UInt8
  /-- The bytes in the pipe when `piperead` has waited; none if it was killed. -/
  piped : Option (List UInt8)
  /-- The pieces of the file that `readi` passes to `copyout`. -/
  pieces : List (List UInt8)
  /-- The two descriptors of `sys_pipe`; none if something was exhausted. -/
  descriptors : Option (List UInt8)
  /-- The exit status that `sys_wait` has found, and the process id. -/
  zombie : Option (List UInt8 × Int)
  /-- `struct stat` -/
  stat : List UInt8
  /-- `console_pending()` -/
  pending : List UInt8
  argvPages : Nat → Bool
  envPages : Nat → Bool
  /-- What the call returns once it has its arguments. -/
  result : Int

/-- A system call with its arguments. -/
inductive UserCall where
  | write (fd : BitVec 32) (addr : Word) (len : BitVec 32)
  | read (fd : BitVec 32) (addr : Word) (n : BitVec 32)
  | pipe (fdarray : Word)
  | wait (addr : Word)
  | getcwd (addr : Word) (size : BitVec 32)
  | fstat (fd : BitVec 32) (st : Word)
  | ioctl (fd request : BitVec 32) (arg : Word)
  /-- `sys_open`, `sys_chdir`, `sys_mkdir` and `sys_unlink` -/
  | path (path : Word)
  | rename (old new : Word)
  | exec (path uargv uenvp : Word)
  deriving Repr, DecidableEq

namespace UserProcess

variable (process : UserProcess) (answers : KernelAnswers)

/-- `p->ofile[fd]`, where `fd` is in range. -/
def file (fd : BitVec 32) : Option UserFile :=
  if inRange : 0 ≤ fd.toInt ∧ fd.toInt.toNat < NOFILE then
    process.ofile ⟨fd.toInt.toNat, inRange.2⟩
  else
    none

/-- What becomes of a chunk that has been copied from the user. -/
def chunkWritten (type : FileType) (index chunk : Nat) : Option Int :=
  match type with
  | .console => some chunk
  | .inode | .pipe => some (answers.written index)
  | .none => none

/-- The error value, or what has been written before. -/
def writtenSoFar (total : Int) (s : CopyState) : CopyResult Int :=
  if 0 < total then .ok total s else .refused s

/-- The loop of `sys_write`, with at most as many turns as bytes. -/
def writeChunks
    (type : FileType) :
    Nat → Nat → Int → Int → Word → CopyState → CopyResult Int
  | 0, _, _, total, _, s => .ok total s
  | turns + 1, index, left, total, user_addr, s =>
      if 0 < left then
        let chunk := min left.toNat 128
        match process.fetchChunk chunk user_addr s with
        | .panic s => .panic s
        | .refused s => writtenSoFar total s
        | .ok _ s =>
            match chunkWritten answers type index chunk with
            | none => .refused s
            | some ret =>
                if ret < 0 then
                  writtenSoFar total s
                else if ret < chunk then
                  .ok (total + ret) s
                else
                  writeChunks type turns (index + 1) (left - ret)
                    (total + ret) (user_addr + BitVec.ofNat 64 chunk) s
      else
        .ok total s

/-- `sys_write` -/
def sysWrite
    (fd : BitVec 32)
    (addr : Word)
    (len : BitVec 32)
    (s : CopyState) : CopyResult Int :=
  match process.file fd with
  | none => .refused s
  | some f =>
      if f.writable then
        process.writeChunks answers f.type len.toInt.toNat 0 len.toInt 0 addr s
      else
        .refused s

/-- The loop of `sys_read` on the console. -/
def readKeys : Nat → Nat → Word → CopyState → CopyResult Int
  | 0, i, _, s => .ok i s
  | turns + 1, i, user_addr, s =>
      match answers.keys i with
      | none => .ok i s
      | some c =>
          (process.find isValid user_addr s).bind fun pte s =>
            let s := s.store pte (pageOffset user_addr) c
            if c = 10 then
              .ok (i + 1) s
            else
              readKeys turns (i + 1) (user_addr + 1) s

/-- The loop of `readi`; it stops at a failure of `copyout`. -/
def readPieces : List (List UInt8) → Int → Word → CopyState → CopyResult Int
  | [], tot, _, s => .ok tot s
  | piece :: rest, tot, dst, s =>
      match process.copyout dst piece s with
      | .panic s => .panic s
      | .refused s => .ok tot s
      | .ok _ s =>
          readPieces rest (tot + piece.length)
            (dst + BitVec.ofNat 64 piece.length) s

/-- `piperead` -/
def piperead (addr : Word) (n : BitVec 32) (s : CopyState) : CopyResult Int :=
  match answers.piped with
  | none => .refused s
  | some data =>
      (process.putBytes (data.take n.toInt.toNat) addr s).bind fun _ s =>
        .ok (data.take n.toInt.toNat).length s

/-- `sys_read` -/
def sysRead
    (fd : BitVec 32)
    (addr : Word)
    (n : BitVec 32)
    (s : CopyState) : CopyResult Int :=
  match process.file fd with
  | none => .refused s
  | some f =>
      if f.readable then
        match f.type with
        | .console => process.readKeys answers n.toInt.toNat 0 addr s
        | .inode => process.readPieces answers.pieces 0 addr s
        | .pipe => process.piperead answers addr n s
        | .none => .refused s
      else
        .refused s

/-- `sys_pipe` -/
def sysPipe (fdarray : Word) (s : CopyState) : CopyResult Int :=
  match answers.descriptors with
  | none => .refused s
  | some fds => (process.putBytes fds fdarray s).bind fun _ s => .ok 0 s

/-- `sys_wait`, once it has a zombie or gives up. -/
def sysWait (addr : Word) (s : CopyState) : CopyResult Int :=
  match answers.zombie with
  | none => .refused s
  | some (xstate, pid) =>
      if addr ≠ 0 then
        (process.copyout addr xstate s).bind fun _ s => .ok pid s
      else
        .ok pid s

/-- `sys_getcwd`; its error value is 0. -/
def sysGetcwd
    (addr : Word)
    (size : BitVec 32)
    (s : CopyState) : CopyResult Int :=
  if size.toInt ≤ 0 ∨ size.toInt < process.cwd.length then
    .refused s
  else
    (process.copyout addr process.cwd s).bind fun _ s => .ok addr.toNat s

/-- `sys_fstat` -/
def sysFstat (fd : BitVec 32) (st : Word) (s : CopyState) : CopyResult Int :=
  match process.file fd with
  | none => .refused s
  | some f =>
      if f.type = .inode then
        (process.copyout st answers.stat s).bind fun _ s => .ok 0 s
      else
        .refused s

/-- `TIOCINQ` -/
def TIOCINQ : Int := 0x541B

/-- `sys_ioctl` -/
def sysIoctl
    (fd request : BitVec 32)
    (arg : Word)
    (s : CopyState) : CopyResult Int :=
  match process.file fd with
  | none => .refused s
  | some f =>
      if request.toInt = TIOCINQ ∧ f.type = .console then
        if arg ≠ 0 then
          (process.copyout arg answers.pending s).bind fun _ s => .ok 0 s
        else
          .ok 0 s
      else
        .refused s

/-- `argstr(0, path, MAXPATH)` and what follows it. -/
def sysPath (path : Word) (s : CopyState) : CopyResult Int :=
  (process.fetchstr MAXPATH path s).bind fun _ s => .ok answers.result s

/-- `sys_rename` -/
def sysRename (old new : Word) (s : CopyState) : CopyResult Int :=
  (process.fetchstr MAXPATH old s).bind fun _ s =>
    (process.fetchstr MAXPATH new s).bind fun _ s => .ok answers.result s

/-- The loops of `sys_exec` over `argv` and over `envp`. -/
def fetchArgs
    (pages : Nat → Bool) :
    Nat → Nat → Word → CopyState → CopyResult Unit
  | 0, _, _, s => .ok () s
  | turns + 1, argc, uargv, s =>
      (process.fetchaddr uargv s).bind fun uarg s =>
        if uarg = 0 then
          .ok () s
        else if pages argc then
          (process.fetchstr PGSIZE uarg s).bind fun _ s =>
            fetchArgs pages turns (argc + 1) (uargv + 8) s
        else
          .refused s

/-- `sys_exec`, as far as it reads the old program's memory. -/
def sysExec (path uargv uenvp : Word) (s : CopyState) : CopyResult Int :=
  (process.fetchstr MAXPATH path s).bind fun _ s =>
    (process.fetchArgs answers.argvPages MAXARG 0 uargv s).bind fun _ s =>
      if uenvp = 0 then
        .ok answers.result s
      else
        (process.fetchArgs answers.envPages MAXARG 0 uenvp s).bind fun _ s =>
          .ok answers.result s

/-- A system call. -/
def call : UserCall → CopyState → CopyResult Int
  | .write fd addr len => process.sysWrite answers fd addr len
  | .read fd addr n => process.sysRead answers fd addr n
  | .pipe fdarray => process.sysPipe answers fdarray
  | .wait addr => process.sysWait answers addr
  | .getcwd addr size => process.sysGetcwd addr size
  | .fstat fd st => process.sysFstat answers fd st
  | .ioctl fd request arg => process.sysIoctl answers fd request arg
  | .path path => process.sysPath answers path
  | .rename old new => process.sysRename answers old new
  | .exec path uargv uenvp => process.sysExec answers path uargv uenvp

end UserProcess

/-!
## What the calls ask for
-/

namespace UserProcess

variable (process : UserProcess) (answers : KernelAnswers)
variable (memory : Word → UInt8)

/-- The bytes that the loop of `sys_write` asks for. -/
def writeRequests
    (type : FileType) :
    Nat → Nat → Int → Word → List UserRequest
  | 0, _, _, _ => []
  | turns + 1, index, left, user_addr =>
      if 0 < left then
        let chunk := min left.toNat 128
        UserRequest.bytes false false chunk user_addr ++
          match chunkWritten answers type index chunk with
          | none => []
          | some ret =>
              if ret < chunk then
                []
              else
                writeRequests type turns (index + 1) (left - ret)
                  (user_addr + BitVec.ofNat 64 chunk)
      else
        []

/-- The bytes that the loop of `sys_read` on the console asks for. -/
def keyRequests : Nat → Nat → Word → List UserRequest
  | 0, _, _ => []
  | turns + 1, i, user_addr =>
      match answers.keys i with
      | none => []
      | some c =>
          { va := user_addr
            more := 0
            checksUser := false
            write := true } ::
            if c = 10 then [] else keyRequests turns (i + 1) (user_addr + 1)

/-- The bytes that the loops of `sys_exec` ask for. -/
def argsPlan (pages : Nat → Bool) : Nat → Nat → Word → Plan
  | 0, _, _ =>
      { requests := []
        completes := true }
  | turns + 1, argc, uargv =>
      (process.pointerPlan uargv).andThen <|
        let uarg := process.wordAt memory uargv
        if uarg = 0 then
          { requests := []
            completes := true }
        else if pages argc then
          (process.stringPlan memory PGSIZE uarg).andThen
            (argsPlan pages turns (argc + 1) (uargv + 8))
        else
          { requests := []
            completes := false }

/-- The bytes that a file asks for when it is read. -/
def fileRequests (addr : Word) (n : BitVec 32) : FileType → List UserRequest
  | .console => keyRequests answers n.toInt.toNat 0 addr
  | .inode =>
      UserRequest.bytes true true answers.pieces.flatten.length addr
  | .pipe =>
      (answers.piped.map fun data =>
        UserRequest.bytes false true (data.take n.toInt.toNat).length
          addr).getD []
  | .none => []

/-- The bytes of user memory that a system call asks for, in order. -/
def requests : UserCall → List UserRequest
  | .write fd addr len =>
      match process.file fd with
      | none => []
      | some f =>
          if f.writable then
            writeRequests answers f.type len.toInt.toNat 0 len.toInt addr
          else
            []
  | .read fd addr n =>
      match process.file fd with
      | none => []
      | some f => if f.readable then fileRequests answers addr n f.type else []
  | .pipe fdarray =>
      (answers.descriptors.map fun fds =>
        UserRequest.bytes false true fds.length fdarray).getD []
  | .wait addr =>
      (answers.zombie.map fun found =>
        if addr ≠ 0 then
          UserRequest.bytes true true found.1.length addr
        else
          []).getD []
  | .getcwd addr size =>
      if size.toInt ≤ 0 ∨ size.toInt < process.cwd.length then
        []
      else
        UserRequest.bytes true true process.cwd.length addr
  | .fstat fd st =>
      match process.file fd with
      | none => []
      | some f =>
          if f.type = .inode then
            UserRequest.bytes true true answers.stat.length st
          else
            []
  | .ioctl fd request arg =>
      match process.file fd with
      | none => []
      | some f =>
          if request.toInt = TIOCINQ ∧ f.type = .console then
            if arg ≠ 0 then
              UserRequest.bytes true true answers.pending.length arg
            else
              []
          else
            []
  | .path path => (process.stringPlan memory MAXPATH path).requests
  | .rename old new =>
      ((process.stringPlan memory MAXPATH old).andThen
        (process.stringPlan memory MAXPATH new)).requests
  | .exec path uargv uenvp =>
      ((process.stringPlan memory MAXPATH path).andThen
        ((process.argsPlan memory answers.argvPages MAXARG 0 uargv).andThen
          (if uenvp = 0 then
            { requests := []
              completes := true }
          else
            process.argsPlan memory answers.envPages MAXARG 0
              uenvp))).requests

end UserProcess

theorem CopyResult.AsksFor.nothing
    {Value : Type}
    {space : UserSpace}
    {result : CopyResult Value}
    {s : CopyState}
    (quiet : result.state.log = s.log)
    (alive : result.panicked = false) :
    result.AsksFor space s [] where
  log := by
    rw [quiet]
    exact (List.append_nil _).symm
  panicked := by
    rw [alive]
    simp [UserSpace.serve]

theorem CopyResult.Follows.return
    {Value Next : Type}
    {space : UserSpace}
    {result : CopyResult Value}
    {s : CopyState}
    {plan : Plan}
    (follows : result.Follows space s plan)
    (compute : Value → Next) :
    (result.bind fun value s => .ok (compute value) s).AsksFor space s
      plan.requests :=
  (follows.map compute).toAsksFor

namespace UserProcess

open CopyResult

variable {process : UserProcess} {answers : KernelAnswers}

theorem asksFor_stopped
    {Value : Type}
    {space : UserSpace}
    {result : CopyResult Value}
    {s : CopyState}
    {plan : Plan}
    (follows : result.Follows space s plan)
    (completes : plan.completes = true)
    (notOk : ∀ value after, result ≠ .ok value after)
    (later : List UserRequest) :
    space.serve (plan.requests ++ later) = space.serve plan.requests := by
  rw [UserSpace.serve_append, if_neg]
  intro finished
  obtain ⟨value, after, isOk⟩ := follows.ok.mpr ⟨finished, completes⟩
  exact notOk value after isOk

theorem asksFor_then
    {Value Next : Type}
    {space : UserSpace}
    {result : CopyResult Value}
    {s after : CopyState}
    {plan : Plan}
    {value : Value}
    (follows : result.Follows space s plan)
    (isOk : result = .ok value after)
    {next : CopyResult Next}
    {later : List UserRequest}
    (asks : next.AsksFor space after later) :
    next.AsksFor space s (plan.requests ++ later) := by
  obtain ⟨finished, _⟩ := follows.ok.mp ⟨value, after, isOk⟩
  have log := follows.log
  rw [isOk] at log
  have log' : after.log = s.log ++ (space.serve plan.requests).accesses := log
  refine {
    log := ?_
    panicked := ?_
  }
  · rw [UserSpace.serve_append, if_pos finished, asks.log, log',
      List.append_assoc]
  · rw [UserSpace.serve_append, if_pos finished]
    exact asks.panicked

theorem writtenSoFar_quiet (total : Int) (s : CopyState) :
    (writtenSoFar total s).state.log = s.log ∧
      (writtenSoFar total s).panicked = false := by
  unfold writtenSoFar
  split
  · exact ⟨rfl, rfl⟩
  · exact ⟨rfl, rfl⟩

theorem writeChunks_asksFor
    (type : FileType)
    (turns index : Nat)
    (left total : Int)
    (user_addr : Word)
    (s : CopyState) :
    (process.writeChunks answers type turns index left total user_addr
        s).AsksFor process.toUserSpace s
      (writeRequests answers type turns index left user_addr) := by
  induction turns generalizing index left total user_addr s with
  | zero =>
      exact .nothing rfl rfl
  | succ turns inductionHypothesis =>
      unfold writeChunks writeRequests
      by_cases more : 0 < left
      · simp only [if_pos more]
        have fetch :=
          process.fetchChunk_follows (min left.toNat 128) user_addr s
        cases isChunk :
            process.fetchChunk (min left.toNat 128) user_addr s with
        | panic after =>
            rw [isChunk] at fetch
            have stopped := asksFor_stopped fetch rfl (by simp)
            refine {
              log := ?_
              panicked := ?_
            }
            · rw [stopped]
              exact fetch.log
            · rw [stopped]
              exact fetch.panicked
        | refused after =>
            rw [isChunk] at fetch
            have stopped := asksFor_stopped fetch rfl (by simp)
            obtain ⟨quiet, alive⟩ := writtenSoFar_quiet total after
            refine {
              log := ?_
              panicked := ?_
            }
            · rw [stopped, quiet]
              exact fetch.log
            · rw [stopped, ← fetch.panicked]
              dsimp only
              rw [alive]
              rfl
        | ok bytes after =>
            apply asksFor_then fetch isChunk
            dsimp only
            cases chunkWritten answers type index (min left.toNat 128) with
            | none =>
                exact .nothing rfl rfl
            | some ret =>
                dsimp only
                by_cases failed : ret < 0
                · have short : ret < ↑(min left.toNat 128) :=
                    Int.lt_of_lt_of_le failed (Int.natCast_nonneg _)
                  rw [if_pos failed, if_pos short]
                  obtain ⟨quiet, alive⟩ := writtenSoFar_quiet total after
                  exact .nothing quiet alive
                · rw [if_neg failed]
                  by_cases short : ret < ↑(min left.toNat 128)
                  · rw [if_pos short, if_pos short]
                    exact .nothing rfl rfl
                  · rw [if_neg short, if_neg short]
                    exact inductionHypothesis ..
      · simp only [if_neg more]
        exact .nothing rfl rfl

theorem readKeys_asksFor
    (turns i : Nat)
    (user_addr : Word)
    (s : CopyState) :
    (process.readKeys answers turns i user_addr s).AsksFor
      process.toUserSpace s (keyRequests answers turns i user_addr) := by
  have follows (turns i : Nat) (user_addr : Word) (s : CopyState) :
      (process.readKeys answers turns i user_addr s).Follows
        process.toUserSpace s
        { requests := keyRequests answers turns i user_addr
          completes := true } := by
    induction turns generalizing i user_addr s with
    | zero =>
        exact .value _ s
    | succ turns inductionHypothesis =>
        unfold readKeys keyRequests
        cases answers.keys i with
        | none =>
            exact .value _ s
        | some c =>
            dsimp only
            apply CopyResult.Follows.request
              { va := user_addr, more := 0, checksUser := false,
                write := true }
              { requests :=
                  if c = 10 then
                    []
                  else
                    keyRequests answers turns (i + 1) (user_addr + 1)
                completes := true }
            intro pte _
            refine ⟨s.store pte (pageOffset user_addr) c, ?_, ?_⟩
            · rw [UserSpace.accesses_byte _ rfl]
              rfl
            · split
              · exact .value _ _
              · exact inductionHypothesis ..
  exact (follows turns i user_addr s).toAsksFor

theorem readPieces_asksFor
    (pieces : List (List UInt8))
    (tot : Int)
    (dst : Word)
    (s : CopyState) :
    (process.readPieces pieces tot dst s).AsksFor process.toUserSpace s
      (UserRequest.bytes true true pieces.flatten.length dst) := by
  induction pieces generalizing tot dst s with
  | nil =>
      exact .nothing rfl rfl
  | cons piece rest inductionHypothesis =>
      unfold readPieces
      have copy := process.copyout_follows dst piece s
      rw [List.flatten_cons, List.length_append, UserSpace.bytes_add]
      cases isCopy : process.copyout dst piece s with
      | panic after =>
          rw [isCopy] at copy
          have stopped := asksFor_stopped copy rfl (by simp)
          refine {
            log := ?_
            panicked := ?_
          }
          · rw [stopped]
            exact copy.log
          · rw [stopped]
            exact copy.panicked
      | refused after =>
          rw [isCopy] at copy
          have stopped := asksFor_stopped copy rfl (by simp)
          refine {
            log := ?_
            panicked := ?_
          }
          · rw [stopped]
            exact copy.log
          · rw [stopped]
            exact copy.panicked
      | ok value after =>
          exact asksFor_then copy isCopy (inductionHypothesis ..)

theorem fetchArgs_memory
    (process : UserProcess)
    (pages : Nat → Bool)
    (turns argc : Nat)
    (uargv : Word)
    (s : CopyState) :
    (process.fetchArgs pages turns argc uargv s).state.memory = s.memory := by
  induction turns generalizing argc uargv s with
  | zero =>
      rfl
  | succ turns inductionHypothesis =>
      unfold fetchArgs
      have pointer := process.fetchaddr_memory uargv s
      cases isPointer : process.fetchaddr uargv s with
      | panic after =>
          rw [isPointer] at pointer
          exact pointer
      | refused after =>
          rw [isPointer] at pointer
          exact pointer
      | ok uarg after =>
          rw [isPointer] at pointer
          simp only [CopyResult.bind]
          split
          · exact pointer
          · split
            · have string := process.fetchstr_memory PGSIZE uarg after
              cases isString : process.fetchstr PGSIZE uarg after with
              | panic later =>
                  rw [isString] at string
                  exact string.trans pointer
              | refused later =>
                  rw [isString] at string
                  exact string.trans pointer
              | ok value later =>
                  rw [isString] at string
                  exact (inductionHypothesis ..).trans (string.trans pointer)
            · exact pointer

theorem fetchArgs_follows
    (process : UserProcess)
    (pages : Nat → Bool)
    (turns argc : Nat)
    (uargv : Word)
    (s : CopyState) :
    (process.fetchArgs pages turns argc uargv s).Follows process.toUserSpace
      s (process.argsPlan s.memory pages turns argc uargv) := by
  induction turns generalizing argc uargv s with
  | zero =>
      exact .value _ s
  | succ turns inductionHypothesis =>
      unfold fetchArgs argsPlan
      apply (process.fetchaddr_follows uargv s).bind
      intro uarg after isPointer
      have isUarg := process.fetchaddr_value isPointer
      have memory := process.fetchaddr_memory uargv s
      rw [isPointer] at memory
      have memory' : after.memory = s.memory := memory
      dsimp only
      rw [← isUarg]
      split
      · exact .value _ after
      · split
        · have string := process.fetchstr_follows PGSIZE uarg after
          rw [memory'] at string
          apply string.bind
          intro value later isString
          have stringMemory := process.fetchstr_memory PGSIZE uarg after
          rw [isString] at stringMemory
          have rest := inductionHypothesis (argc + 1) (uargv + 8) later
          have later' : later.memory = s.memory :=
            Eq.trans stringMemory memory'
          rwa [later'] at rest
        · exact .error after

theorem call_asksFor
    (process : UserProcess)
    (answers : KernelAnswers)
    (call : UserCall)
    (s : CopyState) :
    (process.call answers call s).AsksFor process.toUserSpace s
      (process.requests answers s.memory call) := by
  cases call with
  | write fd addr len =>
      simp only [UserProcess.call, sysWrite, requests]
      cases process.file fd with
      | none =>
          exact .nothing rfl rfl
      | some f =>
          dsimp only
          split
          · exact writeChunks_asksFor ..
          · exact .nothing rfl rfl
  | read fd addr n =>
      simp only [UserProcess.call, sysRead, requests]
      cases process.file fd with
      | none =>
          exact .nothing rfl rfl
      | some f =>
          dsimp only
          split
          · cases f.type with
            | console =>
                exact readKeys_asksFor ..
            | inode =>
                exact readPieces_asksFor ..
            | pipe =>
                simp only [piperead, fileRequests]
                cases answers.piped with
                | none =>
                    exact .nothing rfl rfl
                | some data =>
                    exact (process.putBytes_follows _ addr s).return _
            | none =>
                exact .nothing rfl rfl
          · exact .nothing rfl rfl
  | pipe fdarray =>
      simp only [UserProcess.call, sysPipe, requests]
      cases answers.descriptors with
      | none =>
          exact .nothing rfl rfl
      | some fds =>
          exact (process.putBytes_follows fds fdarray s).return _
  | wait addr =>
      simp only [UserProcess.call, sysWait, requests]
      cases answers.zombie with
      | none =>
          exact .nothing rfl rfl
      | some found =>
          simp only [Option.map_some, Option.getD_some]
          split
          · exact (process.copyout_follows addr found.1 s).return _
          · exact .nothing rfl rfl
  | getcwd addr size =>
      simp only [UserProcess.call, sysGetcwd, requests]
      split
      · exact .nothing rfl rfl
      · exact (process.copyout_follows addr process.cwd s).return _
  | fstat fd st =>
      simp only [UserProcess.call, sysFstat, requests]
      cases process.file fd with
      | none =>
          exact .nothing rfl rfl
      | some f =>
          dsimp only
          split
          · exact (process.copyout_follows st answers.stat s).return _
          · exact .nothing rfl rfl
  | ioctl fd request arg =>
      simp only [UserProcess.call, sysIoctl, requests]
      cases process.file fd with
      | none =>
          exact .nothing rfl rfl
      | some f =>
          dsimp only
          split
          · split
            · exact (process.copyout_follows arg answers.pending s).return _
            · exact .nothing rfl rfl
          · exact .nothing rfl rfl
  | path path =>
      exact (process.fetchstr_follows MAXPATH path s).return _
  | rename old new =>
      simp only [UserProcess.call, sysRename, requests]
      apply Follows.toAsksFor
      apply (process.fetchstr_follows MAXPATH old s).bind
      intro value after isString
      have memory := process.fetchstr_memory MAXPATH old s
      rw [isString] at memory
      have second := process.fetchstr_follows MAXPATH new after
      have memory' : after.memory = s.memory := memory
      rw [memory'] at second
      exact second.map _
  | exec path uargv uenvp =>
      simp only [UserProcess.call, sysExec, requests]
      apply Follows.toAsksFor
      apply (process.fetchstr_follows MAXPATH path s).bind
      intro value after isString
      have memory := process.fetchstr_memory MAXPATH path s
      rw [isString] at memory
      have memory' : after.memory = s.memory := memory
      have arguments :=
        fetchArgs_follows process answers.argvPages MAXARG 0 uargv after
      rw [memory'] at arguments
      apply arguments.bind
      intro value' later isArgs
      have argsMemory :=
        fetchArgs_memory process answers.argvPages MAXARG 0 uargv after
      rw [isArgs] at argsMemory
      have later' : later.memory = s.memory := Eq.trans argsMemory memory'
      split
      · exact .value _ later
      · have environment :=
          fetchArgs_follows process answers.envPages MAXARG 0 uenvp later
        rw [later'] at environment
        exact environment.map _

end UserProcess

end MyOS

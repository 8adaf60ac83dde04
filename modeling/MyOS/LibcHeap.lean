import MyOS.Lib.Bytes

namespace MyOS

open Lib

/-!
# The heap of the C library

`malloc` and `free` keep a circular list of free blocks, with headers of two
64-bit fields in the memory that they manage.  Pointers and sizes are taken
modulo the range of a word, as the code takes them; `sbrk` is a parameter.
-/

/-- Values of a 64-bit word. -/
def WORD_RANGE : Nat := 18446744073709551616

/-- `sizeof(Header)` -/
def HEADER_SIZE : Nat := 16

/-- Units that `morecore` asks for at least. -/
def MORECORE_UNITS : Nat := 1024

/-- `(char *)-1` -/
def SBRK_FAILED : Nat := WORD_RANGE - 1

/-- `p->s.ptr` -/
def headerPtr (memory : Bytes) (p : Nat) : Nat :=
  memory.le64 p

/-- `p->s.size` -/
def headerSize (memory : Bytes) (p : Nat) : Nat :=
  memory.le64 (p + 8)

/-- `p->s.ptr = value` -/
def setHeaderPtr (memory : Bytes) (p value : Nat) : Bytes :=
  memory.put p 8 (Bytes.ofNat value)

/-- `p->s.size = value` -/
def setHeaderSize (memory : Bytes) (p value : Nat) : Bytes :=
  memory.put (p + 8) 8 (Bytes.ofNat value)

/-- `p + units` -/
def unitsAhead (p units : Nat) : Nat :=
  (p + units * HEADER_SIZE) % WORD_RANGE

/-- `(Header *)ptr - 1` -/
def headerOf (ptr : Nat) : Nat :=
  (ptr + WORD_RANGE - HEADER_SIZE) % WORD_RANGE

/-- What the heap's functions read and write; `K` is the kernel's state. -/
structure LibcHeap (K : Type) where
  memory : Bytes
  freep : Nat
  kernel : K

/-- `sbrk(increment)`: the pointer returned, and the kernel behind the call,
which may not come back. -/
abbrev SbrkCall (K : Type) : Type := Nat → K → Option (Nat × K)

section Functions

variable {K : Type} (sbrk : SbrkCall K) (base : Nat)

/-- The list is set up with the static block alone at the first call. -/
def setUp (heap : LibcHeap K) : LibcHeap K :=
  if heap.freep = 0 then
    { heap with
      memory := setHeaderSize (setHeaderPtr heap.memory base base) base 0
      freep := base }
  else
    heap

/-- The loop of `free`: the block that the new one is put behind. -/
def freeLoop (memory : Bytes) (bp : Nat) : Nat → Nat → Option Nat
  | 0, _ => none
  | fuel + 1, p =>
      if p < bp ∧ bp < headerPtr memory p then
        some p
      else if headerPtr memory p ≤ p ∧ (p < bp ∨ bp < headerPtr memory p) then
        some p
      else
        freeLoop memory bp fuel (headerPtr memory p)

/-- The block at `bp` is joined with the one behind `p`, or put before it. -/
def joinNext (memory : Bytes) (bp p : Nat) : Bytes :=
  if unitsAhead bp (headerSize memory bp) = headerPtr memory p then
    let memory :=
      setHeaderSize memory bp
        ((headerSize memory bp +
          headerSize memory (headerPtr memory p)) % WORD_RANGE)
    setHeaderPtr memory bp (headerPtr memory (headerPtr memory p))
  else
    setHeaderPtr memory bp (headerPtr memory p)

/-- The block at `p` is joined with the one at `bp`, or put before it. -/
def joinPrevious (memory : Bytes) (bp p : Nat) : Bytes :=
  if unitsAhead p (headerSize memory p) = bp then
    let memory :=
      setHeaderSize memory p
        ((headerSize memory p + headerSize memory bp) % WORD_RANGE)
    setHeaderPtr memory p (headerPtr memory bp)
  else
    setHeaderPtr memory p bp

/-- `free(ptr)` -/
def heapFree (fuel ptr : Nat) (heap : LibcHeap K) : Option (LibcHeap K) :=
  if ptr = 0 then
    some heap
  else
    let heap := setUp base heap
    let bp := headerOf ptr
    match freeLoop heap.memory bp fuel heap.freep with
    | none => none
    | some p =>
        some { heap with
          memory := joinPrevious (joinNext heap.memory bp p) bp p
          freep := p }

/-- `morecore(nunits)`; 0 is a null pointer. -/
def morecore
    (fuel nunits : Nat)
    (heap : LibcHeap K) : Option (Nat × LibcHeap K) :=
  let nunits := if nunits < MORECORE_UNITS then MORECORE_UNITS else nunits
  match sbrk (nunits * HEADER_SIZE % WORD_RANGE) heap.kernel with
  | none => none
  | some (cp, kernel) =>
      let heap := { heap with kernel := kernel }
      if cp = SBRK_FAILED then
        some (0, heap)
      else
        let heap := { heap with memory := setHeaderSize heap.memory cp nunits }
        match heapFree base fuel ((cp + HEADER_SIZE) % WORD_RANGE) heap with
        | none => none
        | some heap => some (heap.freep, heap)

/-- The units that `malloc` looks for. -/
def unitsFor (nbytes : Nat) : Nat :=
  let nbytes := if nbytes = 0 then 1 else nbytes
  (nbytes + HEADER_SIZE - 1) % WORD_RANGE / HEADER_SIZE + 1

/-- A block that is large enough is taken out, or cut at its end. -/
def takeBlock
    (nunits prevp p : Nat)
    (heap : LibcHeap K) : Nat × LibcHeap K :=
  if headerSize heap.memory p = nunits then
    ((p + HEADER_SIZE) % WORD_RANGE,
      { heap with
        memory := setHeaderPtr heap.memory prevp (headerPtr heap.memory p)
        freep := prevp })
  else
    let left := headerSize heap.memory p - nunits
    let memory := setHeaderSize heap.memory p left
    let q := unitsAhead p left
    ((q + HEADER_SIZE) % WORD_RANGE,
      { heap with
        memory := setHeaderSize memory q nunits
        freep := prevp })

/-- The loop of `malloc`. -/
def mallocLoop (nunits : Nat) :
    Nat → Nat → Nat → LibcHeap K → Option (Nat × LibcHeap K)
  | 0, _, _, _ => none
  | fuel + 1, prevp, p, heap =>
      if nunits ≤ headerSize heap.memory p then
        some (takeBlock nunits prevp p heap)
      else if p = heap.freep then
        match morecore sbrk base fuel nunits heap with
        | none => none
        | some (p, heap) =>
            if p = 0 then
              some (0, heap)
            else
              mallocLoop nunits fuel p (headerPtr heap.memory p) heap
      else
        mallocLoop nunits fuel p (headerPtr heap.memory p) heap

/-- `malloc(nbytes)` -/
def heapMalloc
    (fuel nbytes : Nat)
    (heap : LibcHeap K) : Option (Nat × LibcHeap K) :=
  let heap := setUp base heap
  mallocLoop sbrk base (unitsFor nbytes) fuel heap.freep
    (headerPtr heap.memory heap.freep) heap

/-- `memset(p, 0, count)` -/
def memsetZero (memory : Bytes) (p : Nat) : Nat → Bytes
  | 0 => memory
  | count + 1 =>
      (memsetZero memory p count).put ((p + count) % WORD_RANGE) 1
        (Bytes.ofNat 0)

/-- `memcpy(dst, src, count)` -/
def memcpyBytes (memory : Bytes) (dst src : Nat) : Nat → Bytes
  | 0 => memory
  | count + 1 =>
      let copied := memcpyBytes memory dst src count
      copied.put ((dst + count) % WORD_RANGE) 1
        fun _ => copied ((src + count) % WORD_RANGE)

/-- `calloc(nmemb, size)` -/
def heapCalloc
    (fuel nmemb size : Nat)
    (heap : LibcHeap K) : Option (Nat × LibcHeap K) :=
  let total := nmemb * size % WORD_RANGE
  match heapMalloc sbrk base fuel total heap with
  | none => none
  | some (p, heap) =>
      if p = 0 then
        some (0, heap)
      else
        some (p, { heap with memory := memsetZero heap.memory p total })

/-- The bytes behind a block's header, as `realloc` counts them. -/
def oldBytes (memory : Bytes) (ptr : Nat) : Nat :=
  (headerSize memory (headerOf ptr) + WORD_RANGE - 1) % WORD_RANGE *
    HEADER_SIZE % WORD_RANGE

/-- `realloc(ptr, nbytes)` -/
def heapRealloc
    (fuel ptr nbytes : Nat)
    (heap : LibcHeap K) : Option (Nat × LibcHeap K) :=
  if ptr = 0 then
    heapMalloc sbrk base fuel nbytes heap
  else if nbytes = 0 then
    match heapFree base fuel ptr heap with
    | none => none
    | some heap => some (0, heap)
  else if nbytes ≤ oldBytes heap.memory ptr then
    some (ptr, heap)
  else
    let old := oldBytes heap.memory ptr
    match heapMalloc sbrk base fuel nbytes heap with
    | none => none
    | some (new, heap) =>
        if new = 0 then
          some (0, heap)
        else
          let copied :=
            { heap with memory := memcpyBytes heap.memory new ptr old }
          match heapFree base fuel ptr copied with
          | none => none
          | some heap => some (new, heap)

end Functions

end MyOS

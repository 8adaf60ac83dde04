import Mathlib.Data.Nat.Digits.Lemmas
import MyOS.UserCopy

namespace MyOS

/-!
# Pointers in user memory

`fetchaddr` looks at the page of the first of eight bytes only, and adds eight
to the address in a doubleword before it compares with the size.  It returns
the user's eight bytes exactly where they are in one page, or where physical
memory goes on with the bytes of the next page.
-/

namespace UserSpace

variable (space : UserSpace)

/-- The process has a byte at an address. -/
def Owns (address : Nat) : Prop :=
  address < space.sz.toNat ∧
    ∃ pte, space.lookup isUser (BitVec.ofNat 64 address) = .granted pte

/-- The eight bytes of the process from an address on. -/
def pointerBytes (memory : Word → UInt8) (addr : Word) : List UInt8 :=
  (List.range 8).map fun index =>
    space.byteAt memory (addr + BitVec.ofNat 64 index)

/-- What a call of `fetchaddr` should come to: -1, or the little-endian value of
eight bytes that the process has. -/
def FetchesPointer (addr : Word) (s : CopyState) : Prop :=
  match space.fetchaddr addr s with
  | .panic _ => False
  | .refused _ => True
  | .ok value _ =>
      (∀ index, index < 8 → space.Owns (addr.toNat + index)) ∧
        value = doubleword (space.pointerBytes s.memory addr)

/-- The page behind the one of an address is the user's, and begins with the
bytes that follow the first page in physical memory. -/
def Continues
    (memory : Word → UInt8)
    (addr pte : Word) : Prop :=
  ∃ next,
    space.lookup isUser (PGROUNDDOWN addr + 4096) = .granted next ∧
      ∀ index, index < pageOffset addr + 8 - 4096 →
        memory (physical pte (4096 + index)) = memory (physical next index)

/-- The check of the bound refuses the address, or the address is in the range
of `walk` and the eight bytes, where their first page is the user's, are in
that page or continue in the next one. -/
def PointerOk (addr : Word) (s : CopyState) : Prop :=
  space.sz < addr + 8 ∨
    addr.toNat < MAXVA ∧
      ∀ pte, space.lookup isUser addr = .granted pte →
        pageOffset addr ≤ 4088 ∨ space.Continues s.memory addr pte

end UserSpace

section Doublewords

theorem toNat_doubleword
    {bytes : List UInt8}
    (few : bytes.length ≤ 8) :
    (UserSpace.doubleword bytes).toNat =
      Nat.ofDigits 256 (bytes.map UInt8.toNat) := by
  induction bytes with
  | nil => rfl
  | cons byte rest inductionHypothesis =>
      rw [List.length_cons] at few
      have isRest := inductionHypothesis (by omega)
      have restBound :
          Nat.ofDigits 256 (rest.map UInt8.toNat) < 256 ^ 7 := by
        have below :
            Nat.ofDigits 256 (rest.map UInt8.toNat) <
              256 ^ (rest.map UInt8.toNat).length := by
          apply Nat.ofDigits_lt_base_pow_length (by decide)
          intro digit member
          obtain ⟨byte, _, rfl⟩ := List.mem_map.mp member
          exact byte.toNat_lt
        rw [List.length_map] at below
        exact Nat.lt_of_lt_of_le below
          (Nat.pow_le_pow_right (by decide) (by omega))
      have byteBound : byte.toNat < 256 := byte.toNat_lt
      have isCons :
          UserSpace.doubleword (byte :: rest) =
            UserSpace.doubleword rest <<< 8 |||
              BitVec.ofNat 64 byte.toNat := rfl
      have bound : 256 ^ 7 * 256 = 18446744073709551616 := by decide
      rw [isCons, List.map_cons, Nat.ofDigits_cons, BitVec.toNat_or,
        BitVec.toNat_shiftLeft, BitVec.toNat_ofNat, isRest,
        Nat.shiftLeft_eq]
      have small :
          Nat.ofDigits 256 (rest.map UInt8.toNat) * 2 ^ 8 % 2 ^ 64 =
            Nat.ofDigits 256 (rest.map UInt8.toNat) <<< 8 := by
        rw [Nat.shiftLeft_eq]
        omega
      have byteSmall : byte.toNat % 2 ^ 64 = byte.toNat := by omega
      rw [small, byteSmall, ← Nat.shiftLeft_add_eq_or_of_lt byteBound,
        Nat.shiftLeft_eq]
      exact Nat.add_comm _ _ |>.trans (congrArg _ (Nat.mul_comm _ _))

theorem doubleword_injective
    {first second : List UInt8}
    (few : first.length ≤ 8)
    (length : first.length = second.length)
    (same : UserSpace.doubleword first = UserSpace.doubleword second) :
    first = second := by
  have numbers := congrArg BitVec.toNat same
  rw [toNat_doubleword few, toNat_doubleword (length ▸ few)] at numbers
  have bytes :
      ∀ bytes : List UInt8, ∀ digit ∈ bytes.map UInt8.toNat, digit < 256 := by
    intro bytes digit member
    obtain ⟨byte, _, rfl⟩ := List.mem_map.mp member
    exact byte.toNat_lt
  have digits :=
    Nat.ofDigits_inj_of_len_eq (by decide)
      (by rw [List.length_map, List.length_map, length]) (bytes first)
      (bytes second) numbers
  exact List.map_injective_iff.mpr (fun _ _ => UInt8.toNat_inj.mp) digits

end Doublewords

section Places

variable {addr : Word} {index : Nat}

theorem toNat_behind
    (low : addr.toNat < MAXVA)
    (few : index < 8) :
    (addr + BitVec.ofNat 64 index).toNat = addr.toNat + index := by
  have isMax : MAXVA = 274877906944 := rfl
  rw [BitVec.toNat_add, BitVec.toNat_ofNat]
  omega

theorem behind_same
    (low : addr.toNat < MAXVA)
    (few : index < 8)
    (inside : pageOffset addr + index < 4096) :
    PGROUNDDOWN (addr + BitVec.ofNat 64 index) = PGROUNDDOWN addr ∧
      pageOffset (addr + BitVec.ofNat 64 index) = pageOffset addr + index := by
  rw [pageOffset_eq] at inside
  constructor
  · apply BitVec.eq_of_toNat_eq
    rw [toNat_pgrounddown, toNat_pgrounddown, toNat_behind low few]
    omega
  · rw [pageOffset_eq, pageOffset_eq, toNat_behind low few]
    omega

theorem behind_next
    (low : addr.toNat < MAXVA)
    (few : index < 8)
    (outside : 4096 ≤ pageOffset addr + index) :
    PGROUNDDOWN (addr + BitVec.ofNat 64 index) =
        PGROUNDDOWN (PGROUNDDOWN addr + 4096) ∧
      pageOffset (addr + BitVec.ofNat 64 index) =
        pageOffset addr + index - 4096 := by
  have isMax : MAXVA = 274877906944 := rfl
  have page : (4096 : Word).toNat = 4096 := rfl
  rw [pageOffset_eq] at outside
  constructor
  · apply BitVec.eq_of_toNat_eq
    rw [toNat_pgrounddown, toNat_pgrounddown, toNat_behind low few,
      BitVec.toNat_add, toNat_pgrounddown, page]
    omega
  · rw [pageOffset_eq, pageOffset_eq, toNat_behind low few]
    omega

end Places

namespace UserSpace

variable {space : UserSpace} {addr pte : Word} {s : CopyState}

theorem byteAt_granted
    {va : Word}
    {memory : Word → UInt8}
    (granted : space.lookup isUser va = .granted pte) :
    space.byteAt memory va = memory (physical pte (pageOffset va)) := by
  unfold byteAt
  rw [granted]

theorem owns_behind (index : Nat) :
    space.Owns (addr.toNat + index) ↔
      addr.toNat + index < space.sz.toNat ∧
        ∃ pte,
          space.lookup isUser (addr + BitVec.ofNat 64 index) =
            .granted pte := by
  have same :
      BitVec.ofNat 64 (addr.toNat + index) = addr + BitVec.ofNat 64 index := by
    rw [BitVec.ofNat_add, BitVec.ofNat_toNat, BitVec.setWidth_eq]
  unfold Owns
  rw [same]

theorem pointerBytes_iff
    (low : addr.toNat < MAXVA)
    (within : addr.toNat + 8 ≤ space.sz.toNat)
    (granted : space.lookup isUser addr = .granted pte)
    (memory : Word → UInt8) :
    ((∀ index, index < 8 → space.Owns (addr.toNat + index)) ∧
        ∀ index, index < 8 →
          memory (physical pte (pageOffset addr + index)) =
            space.byteAt memory (addr + BitVec.ofNat 64 index)) ↔
      pageOffset addr ≤ 4088 ∨ space.Continues memory addr pte := by
  have offset : pageOffset addr < 4096 := by
    rw [pageOffset_eq]
    omega
  -- A byte in the first page is the one behind the entry.
  have first :
      ∀ index, index < 8 → pageOffset addr + index < 4096 →
        space.Owns (addr.toNat + index) ∧
          memory (physical pte (pageOffset addr + index)) =
            space.byteAt memory (addr + BitVec.ofNat 64 index) := by
    intro index few inside
    obtain ⟨samePage, isOffset⟩ := behind_same low few inside
    have isGranted :
        space.lookup isUser (addr + BitVec.ofNat 64 index) = .granted pte := by
      rw [lookup_congr samePage, granted]
    refine ⟨(owns_behind index).mpr ⟨by omega, pte, isGranted⟩, ?_⟩
    rw [byteAt_granted isGranted, isOffset]
  constructor
  · rintro ⟨owns, same⟩
    by_cases inside : pageOffset addr ≤ 4088
    · exact Or.inl inside
    right
    -- The last byte is in the next page, so that the process has that page.
    obtain ⟨nextPage, _⟩ := @behind_next addr 7 low (by omega) (by omega)
    obtain ⟨_, next, isNext⟩ := (owns_behind 7).mp (owns 7 (by omega))
    rw [lookup_congr nextPage] at isNext
    refine ⟨next, isNext, ?_⟩
    intro index few
    have isByte := same (index + 4096 - pageOffset addr) (by omega)
    obtain ⟨isPage, isOffset⟩ :=
      @behind_next addr (index + 4096 - pageOffset addr) low (by omega)
        (by omega)
    have isGranted :
        space.lookup isUser
            (addr + BitVec.ofNat 64 (index + 4096 - pageOffset addr)) =
          .granted next := by
      rw [lookup_congr isPage, isNext]
    have place :
        pageOffset addr + (index + 4096 - pageOffset addr) = 4096 + index := by
      omega
    have behind : 4096 + index - 4096 = index := by omega
    rw [byteAt_granted isGranted, isOffset, place, behind] at isByte
    exact isByte
  · intro condition
    -- A byte in the next page is the one that continues the first page.
    have second :
        ∀ index, index < 8 → 4096 ≤ pageOffset addr + index →
          space.Owns (addr.toNat + index) ∧
            memory (physical pte (pageOffset addr + index)) =
              space.byteAt memory (addr + BitVec.ofNat 64 index) := by
      intro index few outside
      obtain ⟨next, isNext, continues⟩ :=
        condition.resolve_left (by omega)
      obtain ⟨isPage, isOffset⟩ := behind_next low few outside
      have isGranted :
          space.lookup isUser (addr + BitVec.ofNat 64 index) =
            .granted next := by
        rw [lookup_congr isPage, isNext]
      refine ⟨(owns_behind index).mpr ⟨by omega, next, isGranted⟩, ?_⟩
      have isByte :=
        continues (pageOffset addr + index - 4096) (by omega)
      have place :
          4096 + (pageOffset addr + index - 4096) =
            pageOffset addr + index := by
        omega
      rw [byteAt_granted isGranted, isOffset, ← isByte, place]
    have each :
        ∀ index, index < 8 →
          space.Owns (addr.toNat + index) ∧
            memory (physical pte (pageOffset addr + index)) =
              space.byteAt memory (addr + BitVec.ofNat 64 index) := by
      intro index few
      rcases Nat.lt_or_ge (pageOffset addr + index) 4096 with inside | outside
      · exact first index few inside
      · exact second index few outside
    exact ⟨fun index few => (each index few).1,
      fun index few => (each index few).2⟩

theorem doubleword_pointerBytes
    (memory : Word → UInt8) :
    doubleword ((List.range 8).map fun index =>
        memory (physical pte (pageOffset addr + index))) =
          doubleword (space.pointerBytes memory addr) ↔
      ∀ index, index < 8 →
        memory (physical pte (pageOffset addr + index)) =
          space.byteAt memory (addr + BitVec.ofNat 64 index) := by
  unfold pointerBytes
  constructor
  · intro same index few
    have bytes :=
      doubleword_injective (by rw [List.length_map, List.length_range])
        (by rw [List.length_map, List.length_map]) same
    exact List.map_inj_left.mp bytes index (List.mem_range.mpr few)
  · intro same
    congr 1
    exact List.map_congr_left fun index member =>
      same index (List.mem_range.mp member)

/-- `fetchaddr` returns -1 or the value of eight bytes that the process has
exactly where the address is such that the code does so. -/
theorem fetchaddr_pointer_iff
    (space : UserSpace)
    (addr : Word)
    (s : CopyState) :
    space.FetchesPointer addr s ↔ space.PointerOk addr s := by
  have eight : (8 : Word).toNat = 8 := rfl
  have isMax : MAXVA = 274877906944 := rfl
  unfold FetchesPointer PointerOk fetchaddr find
  by_cases refused : space.sz < addr + 8
  · rw [if_pos refused]
    exact iff_of_true True.intro (Or.inl refused)
  rw [if_neg refused]
  by_cases high : MAXVA ≤ addr.toNat
  · have panics : space.lookup isUser addr = .panic :=
      lookup_panic_iff.mpr ((maxva_le_pgrounddown addr).mpr high)
    rw [panics]
    refine iff_of_false id ?_
    rintro (isRefused | ⟨low, _⟩)
    · exact refused isRefused
    · exact Nat.not_le.mpr low high
  have low : addr.toNat < MAXVA := Nat.lt_of_not_le high
  have within : addr.toNat + 8 ≤ space.sz.toNat := by
    rw [BitVec.lt_def, BitVec.toNat_add, eight] at refused
    omega
  cases isLookup : space.lookup isUser addr with
  | panic =>
      have out :=
        (maxva_le_pgrounddown addr).mp (lookup_panic_iff.mp isLookup)
      exact absurd out high
  | refused =>
      refine iff_of_true True.intro (Or.inr ⟨low, ?_⟩)
      intro pte isGranted
      cases isGranted
  | granted pte =>
      simp only [CopyResult.bind, loads_eq]
      rw [doubleword_pointerBytes, pointerBytes_iff low within isLookup]
      constructor
      · intro condition
        refine Or.inr ⟨low, ?_⟩
        rintro found isGranted
        cases isGranted
        exact condition
      · rintro (isRefused | ⟨_, condition⟩)
        · exact absurd isRefused refused
        · exact condition pte rfl

/-- The first two pages of a process, in frames that are apart. -/
def splitPages : UserSpace where
  pagetable := 0x1000
  table := fun address =>
    if address = 0x1000 then
      PA2PTE 0x2000 ||| PTE_V
    else if address = 0x2000 then
      PA2PTE 0x3000 ||| PTE_V
    else if address = 0x3000 then
      PA2PTE 0x10000 ||| PTE_V ||| PTE_R ||| PTE_U
    else if address = 0x3008 then
      PA2PTE 0x20000 ||| PTE_V ||| PTE_R ||| PTE_U
    else
      0
  sz := 8192

/-- A one at the beginning of the second page. -/
def splitMemory : CopyState where
  memory := fun place => if place = 0x20000 then 1 else 0
  log := []

/-- An address four bytes in front of a page whose frame is not the next one,
and one at the top, where the sum with eight wraps. -/
theorem fetchaddr_not_pointer :
    ¬ splitPages.FetchesPointer 4092 splitMemory ∧
      ¬ splitPages.FetchesPointer 0xFFFFFFFFFFFFFFFC splitMemory := by
  constructor
  · intro fetches
    have value :
        (0 : Word) =
          doubleword (splitPages.pointerBytes splitMemory.memory 4092) :=
      fetches.2
    revert value
    decide +kernel
  · intro fetches
    exact fetches

end UserSpace

end MyOS

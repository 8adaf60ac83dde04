import MyOS.InodeContent

namespace MyOS

open Lib

/-!
# What writing leaves behind

`writei` alone: the bytes that are written replace those of the file, a gap in
front of them is filled with zeros, and the inode is stored when it has grown.
-/

/-- An inode with other blocks and another size. -/
def Dinode.resized
    (dinode : Dinode)
    (addrs : AddrIndex → Nat)
    (size : Nat) :
    Dinode :=
  { dinode with
    addrs := addrs
    size := size }

/-- The size of a file behind a write. -/
def Dinode.sizeAfter (dinode : Dinode) (off n : Nat) : Nat :=
  if n = 0 then dinode.size else max dinode.size (off + n)

/-- An inode that grows is stored; otherwise its disk copy is as before. -/
def Dinode.lagAfter
    (dinode : Dinode)
    (last : Nat)
    (lagging : Option Nat) :
    Option Nat :=
  if dinode.size < last then none else lagging

namespace Disk

variable {disk : Disk} {dinode changed : Dinode}

theorem pointer_of_addrs
    (same : changed.addrs = dinode.addrs) :
    disk.pointer changed = disk.pointer dinode := by
  funext position
  exact pointer_congr same fun _ _ _ => rfl

theorem byteAt_of_addrs
    (same : changed.addrs = dinode.addrs) :
    disk.byteAt changed = disk.byteAt dinode := by
  funext place
  unfold byteAt
  rw [pointer_of_addrs same]

end Disk

namespace FileSystem

variable {fs : FileSystem} {m : Nat → Dinode}
variable {lagging : Option Nat}
variable {ip : InodeIndex} {inum : Nat}

/-- A loaded inode that has become another one, with the bytes it has now. -/
structure Rewritten
    (fs : FileSystem)
    (m : Nat → Dinode)
    (ip : InodeIndex)
    (inum : Nat)
    (later : FileSystem)
    (dinode : Dinode)
    (lagging : Option Nat)
    (value : Nat → UInt8) : Prop where
  inode :
    later.inode =
      Function.update fs.inode ip { fs.inode ip with toDinode := dinode }
  loaded : later.Loaded (Function.update m inum dinode) lagging ip inum
  others :
    ∀ other, other ≠ inum →
      FileKept fs.disk (m other) later.disk (m other)
  bytes :
    ∀ place, place < dinode.size →
      Disk.byteAt later.disk dinode place = value place

namespace Rewritten

variable {later last : FileSystem} {dinode final : Dinode}
variable {lags lagsNow : Option Nat} {value finalValue : Nat → UInt8}

theorem trans
    (one : fs.Rewritten m ip inum later dinode lags value)
    (two :
      later.Rewritten (Function.update m inum dinode) ip inum last final
        lagsNow finalValue) :
    fs.Rewritten m ip inum last final lagsNow finalValue where
  inode := by
    have inode := two.inode
    rw [one.inode, Function.update_idem] at inode
    simp only [Function.update_self] at inode
    exact inode
  loaded := by
    have loaded := two.loaded
    rw [Function.update_idem] at loaded
    exact loaded
  others := by
    intro other different
    have again := two.others other different
    rw [Function.update_of_ne different] at again
    exact (one.others other different).trans again
  bytes := two.bytes

theorem congr
    (one : fs.Rewritten m ip inum later dinode lags value)
    (same :
      ∀ place, place < dinode.size → value place = finalValue place) :
    fs.Rewritten m ip inum later dinode lags finalValue where
  inode := one.inode
  loaded := one.loaded
  others := one.others
  bytes := by
    intro place inside
    rw [one.bytes place inside]
    exact same place inside

end Rewritten

theorem Loaded.unchanged
    (loaded : fs.Loaded m lagging ip inum) :
    fs.Rewritten m ip inum fs (m inum) lagging
      (Disk.byteAt fs.disk (m inum)) where
  inode := by
    rw [← loaded.same, Function.update_eq_self]
  loaded := by
    rw [Function.update_eq_self]
    exact loaded
  others := fun _ _ => FileKept.refl
  bytes := fun _ _ => rfl

theorem rewritten_of_written
    {later : FileSystem}
    {addrs : AddrIndex → Nat}
    {lags final : Option Nat}
    {first last size : Nat}
    {value : Nat → UInt8}
    (loaded : fs.Loaded m lagging ip inum)
    (written :
      fs.Written m lags ip inum first last value later addrs)
    (isSize : size = max (m inum).size last)
    (lower : first ≤ (m inum).size)
    (inFile : last ≤ MAXFILE * BSIZE)
    (changed : Disk)
    (fits :
      DiskFits changed
        (Function.update m inum ((m inum).resized addrs size)) final none)
    (lagsNow : final = none ∨ final = some inum)
    (kept :
      ∀ other,
        FileKept later.disk (setAddrs m inum addrs other) changed
          (setAddrs m inum addrs other)) :
    fs.Rewritten m ip inum
      (fs.withDinode ip changed ((m inum).resized addrs size))
      ((m inum).resized addrs size) final
      (fun place =>
        if first ≤ place ∧ place < last then value place
        else Disk.byteAt fs.disk (m inum) place) := by
  have bounded := loaded.bounded
  have here := kept inum
  rw [setAddrs_inum] at here
  have samePointer :
      Disk.pointer changed ((m inum).resized addrs size) =
        Disk.pointer changed { m inum with addrs := addrs } :=
    Disk.pointer_of_addrs rfl
  have sameByte :
      Disk.byteAt changed ((m inum).resized addrs size) =
        Disk.byteAt changed { m inum with addrs := addrs } :=
    Disk.byteAt_of_addrs rfl
  have present :
      ∀ place, place < size →
        Disk.pointer later.disk { m inum with addrs := addrs }
          (.ofBlock (place / BSIZE)) ≠ 0 := by
    intro place inside
    by_cases isWritten : first ≤ place ∧ place < last
    · exact (written.there place isWritten.1 isWritten.2).1
    · have isPresent := loaded.noHoles place (by omega)
      rw [written.pointers _ isPresent]
      exact isPresent
  exact {
    inode := rfl
    loaded := {
      formatted := loaded.formatted
      fits := fits
      lag := lagsNow
      isInum := by
        unfold withDinode
        simp only [Function.update_self]
        exact loaded.isInum
      same := by
        unfold withDinode
        simp only [Function.update_self]
      inUse := by
        rw [Function.update_self]
        exact loaded.inUse
      inArea := loaded.inArea
      noHoles := by
        rw [Function.update_self]
        intro place inside
        have isPresent := present place inside
        change Disk.pointer changed _ _ ≠ 0
        rw [samePointer, (here _ isPresent).1]
        exact isPresent
      bounded := by
        rw [Function.update_self]
        change size ≤ MAXFILE * BSIZE
        omega
    }
    others := by
      intro other different
      have again := kept other
      unfold setAddrs at again
      rw [Function.update_of_ne different] at again
      exact (written.others other different).trans again
    bytes := by
      intro place inside
      have isPresent := present place inside
      change Disk.byteAt changed _ _ = _
      rw [sameByte, here.byteAt isPresent]
      split
      · next isWritten =>
        exact (written.there place isWritten.1 isWritten.2).2
      · next notWritten =>
        have inside : place < size := inside
        exact written.rest place (by omega)
          (loaded.noHoles place (by omega))
  }

/-- The bytes of a file behind a write at an offset. -/
def writtenBytes (fs : FileSystem) (dinode : Dinode) (off n : Nat)
    (source : Bytes) (place : Nat) : UInt8 :=
  if off ≤ place ∧ place < off + n then
    source (place - off)
  else
    Disk.byteAt fs.disk dinode place

theorem writeiBody_ends
    (loaded : fs.Loaded m lagging ip inum)
    {source : Bytes}
    {off n : Nat}
    (noGap : off ≤ (m inum).size)
    (inFile : off + n ≤ MAXFILE * BSIZE) :
    (writeiBody ip source off n fs).Ends Exhausted
      (fun result later =>
        result = (n : Int) ∧
          ∃ addrs,
            fs.Rewritten m ip inum later
              ((m inum).resized addrs (max (m inum).size (off + n)))
              ((m inum).lagAfter (off + n) lagging)
              (writtenBytes fs (m inum) off n source)) := by
  have sameAddrs : (fs.inode ip).addrs = (m inum).addrs :=
    congrArg Dinode.addrs loaded.same
  have sameSize : (fs.inode ip).size = (m inum).size :=
    congrArg Dinode.size loaded.same
  unfold writeiBody
  by_cases grows : (m inum).size < off + n
  · have lags : DiskFits fs.disk m (some inum) none := by
      have fits := loaded.fits
      rcases loaded.lag with none | isInum
      · rw [none] at fits
        exact fits.lag
      · rw [isInum] at fits
        exact fits
    apply Routine.ends_bind
    · exact writeiFrom_ends off loaded.formatted lags
        sameAddrs loaded.inUse loaded.inArea (Nat.le_refl n) inFile rfl
        (Or.inl rfl)
    · rintro _ later ⟨addrs, written⟩
      apply ends_inodeAt
      have inode :
          later.inode ip = { fs.inode ip with addrs := addrs } := by
        rw [written.shape]
        exact Function.update_self ..
      have size : (later.inode ip).size = (m inum).size := by
        rw [inode]
        exact sameSize
      have stored : (m inum).lagAfter (off + n) lagging = none :=
        if_pos grows
      rw [size, if_pos grows, stored]
      apply ends_setInode
      have formatted : later.sb = imageSuperblock := by
        rw [written.shape]
        exact loaded.formatted
      have isDinode :
          ({ later.inode ip with size := off + n } : Inode) =
            { fs.inode ip with
              toDinode := (m inum).resized addrs (off + n) } := by
        rw [inode]
        unfold Dinode.resized
        rw [← loaded.same]
      have maximum : max (m inum).size (off + n) = off + n := by
        omega
      have bounded := inFile
      rw [MAXFILE_eq, BSIZE_eq] at bounded
      have changed :=
        written.fits.change ((m inum).resized addrs (off + n)) (Or.inr rfl)
          (by
            rw [setAddrs_inum]
            rfl)
          { (written.fits.fits inum) with
            type := (loaded.fits.fits inum).type
            major := (loaded.fits.fits inum).major
            minor := (loaded.fits.fits inum).minor
            nlink := (loaded.fits.fits inum).nlink
            size := by
              change off + n < uintModulus
              simp only [uintModulus]
              omega
            addrs := by
              have addresses := (written.fits.fits inum).addrs
              rw [setAddrs_inum] at addresses
              exact addresses }
          (by
            intro none
            exact absurd none loaded.inUse)
      have stored :=
        changed.storeInode (Or.inr rfl) loaded.inArea
      unfold setAddrs at changed stored
      rw [Function.update_idem] at changed stored
      rw [Function.update_self] at stored
      apply Routine.ends_bind
      · apply iupdate_ends
        exact formatted
      intro _ last isLast
      refine ⟨rfl, addrs, ?_⟩
      have rewritten :=
        rewritten_of_written loaded written rfl noGap inFile
          (Disk.setDinode later.disk inum
            ((m inum).resized addrs (max (m inum).size (off + n))))
          (by
            rw [maximum]
            exact stored)
          (Or.inl rfl)
          (fun other => written.fits.kept_storeInode _ loaded.inArea other)
      have shape :
          last =
            fs.withDinode ip
              (Disk.setDinode later.disk inum
                ((m inum).resized addrs (max (m inum).size (off + n))))
              ((m inum).resized addrs (max (m inum).size (off + n))) := by
        rw [isLast, maximum]
        unfold withDinode
        simp only [Function.update_self, isDinode]
        rw [loaded.isInum, written.shape]
        unfold withAddrs
        simp only [Function.update_idem]
      rw [shape]
      exact rewritten
  · apply Routine.ends_bind
    · apply writeiFrom_ends off loaded.formatted
        loaded.fits sameAddrs loaded.inUse loaded.inArea (Nat.le_refl n)
        inFile rfl
      right
      intro place _ upper
      exact loaded.noHoles place (by omega)
    · rintro _ later ⟨addrs, written⟩
      apply ends_inodeAt
      have inode :
          later.inode ip = { fs.inode ip with addrs := addrs } := by
        rw [written.shape]
        exact Function.update_self ..
      have size : (later.inode ip).size = (m inum).size := by
        rw [inode]
        exact sameSize
      have unstored : (m inum).lagAfter (off + n) lagging = lagging :=
        if_neg grows
      rw [size, if_neg grows, unstored]
      have maximum : max (m inum).size (off + n) = (m inum).size := by
        omega
      have unsized :
          (m inum).resized addrs (max (m inum).size (off + n)) =
            { m inum with addrs := addrs } := by
        rw [maximum]
        rfl
      refine ⟨rfl, addrs, ?_⟩
      have rewritten :=
        rewritten_of_written loaded written rfl noGap inFile later.disk
          (by
            rw [unsized]
            exact written.fits)
          loaded.lag (fun _ => FileKept.refl)
      have shape :
          later =
            fs.withDinode ip later.disk
              ((m inum).resized addrs (max (m inum).size (off + n))) := by
        rw [unsized]
        have here := written.shape
        unfold withAddrs at here
        unfold withDinode
        rw [← loaded.same]
        exact here
      rw [shape]
      exact rewritten

theorem writeiRefuses_eq_false
    {off n : Nat}
    (narrow : n < uintModulus) :
    writeiRefuses off n = false ↔ off + n ≤ MAXFILE * BSIZE := by
  simp only [writeiRefuses, decide_eq_false_iff_not, MAXFILE_eq, BSIZE_eq,
    uintModulus] at narrow ⊢
  omega

/-- The bytes of a file whose gap up to an offset has been filled. -/
def filledBytes (fs : FileSystem) (dinode : Dinode) (place : Nat) : UInt8 :=
  if place < dinode.size then Disk.byteAt fs.disk dinode place else 0

theorem Loaded.filled
    (loaded : fs.Loaded m lagging ip inum)
    {off : Nat}
    (noGap : off ≤ (m inum).size) :
    fs.Rewritten m ip inum fs
      ((m inum).resized (m inum).addrs (max (m inum).size off))
      ((m inum).lagAfter off lagging) (filledBytes fs (m inum)) := by
  have same :
      (m inum).resized (m inum).addrs (max (m inum).size off) =
        m inum := by
    rw [Nat.max_eq_left noGap]
    rfl
  have unstored : (m inum).lagAfter off lagging = lagging :=
    if_neg (Nat.not_lt_of_le noGap)
  rw [same, unstored]
  apply loaded.unchanged.congr
  intro place inside
  unfold filledBytes
  rw [if_pos inside]

theorem Rewritten.filled
    {middle last : FileSystem}
    {first final : AddrIndex → Nat}
    {off gap : Nat}
    {lags : Option Nat}
    (inside : (m inum).size + gap ≤ off)
    (isGap : (m inum).size < off)
    (one :
      fs.Rewritten m ip inum middle
        ((m inum).resized first ((m inum).size + gap)) none
        (writtenBytes fs (m inum) (m inum).size gap fun _ => 0))
    (two :
      middle.Rewritten
        (Function.update m inum
          ((m inum).resized first ((m inum).size + gap)))
        ip inum last
        (((m inum).resized first ((m inum).size + gap)).resized final
          (max ((m inum).size + gap) off))
        lags
        (filledBytes middle ((m inum).resized first ((m inum).size + gap)))) :
    fs.Rewritten m ip inum last
      ((m inum).resized final (max (m inum).size off)) lags
      (filledBytes fs (m inum)) := by
  have maximum : max ((m inum).size + gap) off = max (m inum).size off := by
    omega
  have resized :
      ((m inum).resized first ((m inum).size + gap)).resized final
          (max ((m inum).size + gap) off) =
        (m inum).resized final (max (m inum).size off) := by
    rw [maximum]
    rfl
  have whole := one.trans two
  rw [resized] at whole
  apply whole.congr
  intro place _
  unfold filledBytes
  change (if place < (m inum).size + gap then _ else _) = _
  by_cases before : place < (m inum).size + gap
  · rw [if_pos before, one.bytes place before]
    unfold writtenBytes
    by_cases old : place < (m inum).size
    · rw [if_neg (by omega), if_pos old]
    · rw [if_pos (by omega), if_neg old]
  · rw [if_neg before, if_neg (by omega)]

theorem fillGap_ends
    (loaded : fs.Loaded m lagging ip inum)
    {off fuel : Nat}
    (inFile : off ≤ MAXFILE * BSIZE)
    (enough : off - (m inum).size ≤ fuel) :
    (fillGap ip off fuel fs).Ends Exhausted
      (fun filled later =>
        filled = true ∧
          ∃ addrs,
            fs.Rewritten m ip inum later
              ((m inum).resized addrs (max (m inum).size off))
              ((m inum).lagAfter off lagging)
              (filledBytes fs (m inum))) := by
  induction fuel generalizing fs m lagging with
  | zero =>
      exact ⟨rfl, _, loaded.filled (by omega)⟩
  | succ fuel inductionHypothesis =>
      unfold fillGap
      apply ends_inodeAt
      have sameSize : (fs.inode ip).size = (m inum).size :=
        congrArg Dinode.size loaded.same
      rw [sameSize]
      by_cases isGap : (m inum).size < off
      · rw [if_pos isGap]
        have length :
            gapChunk (m inum).size off = min (off - (m inum).size) 128 := rfl
        generalize gapChunk (m inum).size off = gap at length
        have accepted : writeiRefuses (m inum).size gap = false := by
          apply (writeiRefuses_eq_false _).mpr
          · omega
          · simp only [uintModulus]
            omega
        rw [accepted, if_neg (by decide)]
        apply Routine.ends_bind
        · apply writeiBody_ends loaded (Nat.le_refl _)
          omega
        · rintro _ middle ⟨_, addrs, first⟩
          have grown :
              max (m inum).size ((m inum).size + gap) =
                (m inum).size + gap := by
            omega
          have stored :
              (m inum).lagAfter ((m inum).size + gap) lagging = none :=
            if_pos (by omega)
          have storedAfter : (m inum).lagAfter off lagging = none :=
            if_pos isGap
          rw [stored, grown] at first
          rw [storedAfter]
          have rest := inductionHypothesis first.loaded
          rw [Function.update_self] at rest
          apply Outcome.Ends.mono (rest _)
          · rintro filled last ⟨isFilled, final, second⟩
            have storedAgain :
                ((m inum).resized addrs ((m inum).size + gap)).lagAfter off
                  none = none := by
              unfold Dinode.lagAfter
              split <;> rfl
            rw [storedAgain] at second
            exact ⟨isFilled, final, first.filled (by omega) isGap second⟩
          · change off - ((m inum).size + gap) ≤ fuel
            omega
      · rw [if_neg isGap]
        exact ⟨rfl, _, loaded.filled (Nat.le_of_not_lt isGap)⟩

/-- The bytes of a file behind a write, with zeros where there was a gap. -/
def bytesAfter (fs : FileSystem) (dinode : Dinode) (off n : Nat)
    (source : Bytes) (place : Nat) : UInt8 :=
  if off ≤ place ∧ place < off + n then
    source (place - off)
  else
    filledBytes fs dinode place

theorem writei_ends
    (loaded : fs.Loaded m lagging ip inum)
    {source : Bytes}
    {off n : Nat}
    (inFile : off + n ≤ MAXFILE * BSIZE) :
    (writei ip source off n fs).Ends Exhausted
      (fun result later =>
        result = (n : Int) ∧
          ∃ addrs,
            fs.Rewritten m ip inum later
              ((m inum).resized addrs ((m inum).sizeAfter off n))
              ((m inum).lagAfter ((m inum).sizeAfter off n) lagging)
              (bytesAfter fs (m inum) off n source)) := by
  have bounds := inFile
  rw [MAXFILE_eq, BSIZE_eq] at bounds
  have accepted : writeiRefuses off n = false := by
    apply (writeiRefuses_eq_false _).mpr inFile
    simp only [uintModulus]
    omega
  unfold writei
  rw [accepted, if_neg (by decide)]
  by_cases nothing : n = 0
  · have same :
        (m inum).resized (m inum).addrs ((m inum).sizeAfter off n) =
          m inum := by
      unfold Dinode.sizeAfter
      rw [if_pos nothing]
      rfl
    have unstored :
        (m inum).lagAfter ((m inum).sizeAfter off n) lagging = lagging := by
      unfold Dinode.sizeAfter Dinode.lagAfter
      rw [if_pos nothing, if_neg (Nat.lt_irrefl _)]
    rw [if_pos nothing, unstored]
    refine ⟨congrArg Nat.cast nothing.symm, (m inum).addrs, ?_⟩
    rw [same]
    apply loaded.unchanged.congr
    intro place inside
    unfold bytesAfter filledBytes
    rw [if_neg (by omega), if_pos inside]
  · have size : (m inum).sizeAfter off n = max (m inum).size (off + n) :=
      if_neg nothing
    rw [if_neg nothing, size]
    apply Routine.ends_bind
    · apply fillGap_ends loaded
      · omega
      · simp only [uintModulus]
        omega
    · rintro filled middle ⟨isFilled, addrs, first⟩
      rw [isFilled, if_pos rfl]
      have loadedNow := first.loaded
      apply Outcome.Ends.mono
      · apply writeiBody_ends loadedNow
        · rw [Function.update_self]
          exact Nat.le_max_right _ _
        · exact inFile
      · rintro result last ⟨isResult, final, second⟩
        refine ⟨isResult, final, ?_⟩
        have whole := first.trans second
        rw [Function.update_self] at whole
        have maximum :
            max (max (m inum).size off) (off + n) =
              max (m inum).size (off + n) := by
          omega
        have resized :
            ((m inum).resized addrs (max (m inum).size off)).resized final
                (max ((m inum).resized addrs (max (m inum).size off)).size
                  (off + n)) =
              (m inum).resized final (max (m inum).size (off + n)) := by
          change
            (m inum).resized final (max (max (m inum).size off) (off + n)) = _
          rw [maximum]
        have lag :
            ((m inum).resized addrs (max (m inum).size off)).lagAfter
                (off + n) ((m inum).lagAfter off lagging) =
              (m inum).lagAfter (max (m inum).size (off + n)) lagging := by
          unfold Dinode.lagAfter
          change
            (if max (m inum).size off < off + n then none else
              if (m inum).size < off then none else lagging) = _
          by_cases grows : (m inum).size < off + n
          · rw [if_pos (by omega), if_pos (by omega)]
          · rw [if_neg (by omega), if_neg (by omega), if_neg (by omega)]
        rw [resized, lag] at whole
        apply whole.congr
        intro place inside
        have inside : place < max (m inum).size (off + n) := inside
        unfold writtenBytes bytesAfter
        split
        · rfl
        · apply first.bytes
          change place < max (m inum).size off
          omega

theorem writei_refused
    {tolerated : FileSystem → FsPanic → Prop}
    {source : Bytes}
    {off n : Nat}
    (refused : writeiRefuses off n = true) :
    (writei ip source off n fs).Ends tolerated
      (fun result later => result = -1 ∧ later = fs) := by
  unfold writei
  rw [if_pos refused]
  exact ⟨rfl, rfl⟩

end FileSystem

end MyOS

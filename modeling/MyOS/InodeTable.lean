import MyOS.VolumeRoutines

namespace MyOS

open Lib
open Routine

/-!
# The table of in-core inodes on a volume

`iget`, `idup`, `ilock`, `iunlock`, `iput` and `ialloc`, alone, as steps of a
volume.  A routine that borrows handles for a while is described by how many
references it has in every slot beyond those that were there before.
-/

namespace Volume

/--
The handles that were there before are there, with `extra` references in every
slot beside them.
-/
structure Borrows
    (base vol : Volume)
    (extra : InodeIndex → Nat) : Prop where
  ref :
    ∀ x, (vol.handle x).ref = (base.handle x).ref + (extra x : Int)
  kept :
    ∀ x, 0 < (base.handle x).ref →
      (vol.handle x).inum = (base.handle x).inum ∧
        ((base.handle x).valid = true → (vol.handle x).valid = true)
  nonneg : ∀ x, 0 ≤ (base.handle x).ref

/-- One reference in a slot. -/
def one (ip : InodeIndex) : InodeIndex → Nat :=
  fun x => if x = ip then 1 else 0

/-- A node that `ialloc` has just taken. -/
def newNode (type : Nat) : Node where
  type := type
  nlink := 0
  bytes := []

/-- A node whose handles the kernel may use. -/
structure Usable (vol : Volume) (inum : Nat) : Prop where
  inArea : inum < NINODES
  inUse : (vol.node inum).type ≠ 0
  linked : (vol.node inum).nlink ≠ 0

/-- A slot refers to a node. -/
structure Refers (vol : Volume) (ip : InodeIndex) (inum : Nat) : Prop where
  isInum : (vol.handle ip).inum = inum
  referenced : 0 < (vol.handle ip).ref

variable {base vol later : Volume} {extra : InodeIndex → Nat}
variable {ip : InodeIndex} {inum : Nat}

@[simp]
theorem one_self : one ip ip = 1 :=
  if_pos rfl

theorem one_of_ne
    {x : InodeIndex}
    (different : x ≠ ip) :
    one ip x = 0 :=
  if_neg different

@[simp]
theorem setHandle_node
    (handle : Handle) :
    (vol.setHandle ip handle).node = vol.node :=
  rfl

@[simp]
theorem setHandle_handle_self
    (handle : Handle) :
    (vol.setHandle ip handle).handle ip = handle :=
  Function.update_self ..

theorem setHandle_handle_of_ne
    {x : InodeIndex}
    (handle : Handle)
    (different : x ≠ ip) :
    (vol.setHandle ip handle).handle x = vol.handle x :=
  Function.update_of_ne different ..

theorem Borrows.refl
    (nonneg : ∀ x, 0 ≤ (vol.handle x).ref) :
    Borrows vol vol 0 where
  ref := by
    intro x
    simp
  kept := fun _ _ => ⟨rfl, id⟩
  nonneg := nonneg

theorem Borrows.trans
    {more : InodeIndex → Nat}
    (first : Borrows base vol extra)
    (second : Borrows vol later more) :
    Borrows base later (extra + more) where
  ref := by
    intro x
    rw [second.ref x, first.ref x, Pi.add_apply]
    push_cast
    omega
  kept := by
    intro x referenced
    obtain ⟨isInum, valid⟩ := first.kept x referenced
    have positive : 0 < (vol.handle x).ref := by
      rw [first.ref x]
      omega
    obtain ⟨stillInum, stillValid⟩ := second.kept x positive
    exact ⟨stillInum.trans isInum, fun wasValid => stillValid (valid wasValid)⟩
  nonneg := first.nonneg

theorem Borrows.refers
    (borrows : Borrows base vol extra)
    (refers : base.Refers ip inum) :
    vol.Refers ip inum where
  isInum := by
    rw [(borrows.kept ip refers.referenced).1]
    exact refers.isInum
  referenced := by
    have referenced := refers.referenced
    rw [borrows.ref ip]
    omega

theorem Borrows.holds
    (borrows : Borrows base vol extra)
    (holds : base.Holds ip inum) :
    vol.Holds ip inum where
  isInum := (borrows.refers ⟨holds.isInum, holds.referenced⟩).isInum
  referenced := (borrows.refers ⟨holds.isInum, holds.referenced⟩).referenced
  valid := (borrows.kept ip holds.referenced).2 holds.valid

theorem Borrows.nonneg_now
    (borrows : Borrows base vol extra)
    (x : InodeIndex) :
    0 ≤ (vol.handle x).ref := by
  rw [borrows.ref x]
  have nonneg := borrows.nonneg x
  omega

theorem Borrows.gets
    (borrows : Borrows base vol extra)
    (gets : vol.Gets inum ip later) :
    Borrows base later (extra + one ip) where
  ref := by
    intro x
    have before := borrows.ref x
    by_cases same : x = ip
    · rw [same] at before ⊢
      rw [gets.ref, before, Pi.add_apply, one_self]
      push_cast
      omega
    · rw [gets.others x same, before, Pi.add_apply, one_of_ne same]
      simp
  kept := by
    intro x referenced
    obtain ⟨isInum, valid⟩ := borrows.kept x referenced
    by_cases same : x = ip
    · rw [same] at isInum valid referenced ⊢
      have positive : 0 < (vol.handle ip).ref := by
        have before := borrows.ref ip
        omega
      obtain ⟨isHere, sameValid⟩ := gets.shared positive
      refine ⟨?_, ?_⟩
      · rw [gets.isInum, ← isHere]
        exact isInum
      · rw [sameValid]
        exact valid
    · rw [gets.others x same]
      exact ⟨isInum, valid⟩
  nonneg := borrows.nonneg

theorem Borrows.put
    (borrows : Borrows base vol (extra + one ip)) :
    Borrows base (vol.put ip) extra where
  ref := by
    intro x
    have before := borrows.ref x
    by_cases same : x = ip
    · rw [same] at before ⊢
      rw [Pi.add_apply, one_self] at before
      unfold Volume.put
      dsimp only
      rw [Function.update_self]
      dsimp only [Handle.dropped]
      push_cast at before
      omega
    · rw [Pi.add_apply, one_of_ne same] at before
      unfold Volume.put
      dsimp only
      rw [Function.update_of_ne same]
      exact before
  kept := by
    intro x referenced
    obtain ⟨isInum, valid⟩ := borrows.kept x referenced
    unfold Volume.put
    dsimp only
    by_cases same : x = ip
    · rw [same] at isInum valid referenced ⊢
      rw [Function.update_self]
      refine ⟨isInum, ?_⟩
      intro wasValid
      have before := borrows.ref ip
      rw [Pi.add_apply, one_self] at before
      dsimp only [Handle.dropped]
      rw [if_neg]
      · exact valid wasValid
      · push_cast at before
        omega
    · rw [Function.update_of_ne same]
      exact ⟨isInum, valid⟩
  nonneg := borrows.nonneg

theorem Borrows.setNode
    (borrows : Borrows base vol extra)
    (inum : Nat)
    (node : Node) :
    Borrows base (vol.setNode inum node) extra :=
  ⟨borrows.ref, borrows.kept, borrows.nonneg⟩

theorem Refers.borrows
    (refers : vol.Refers ip inum)
    (nonneg : ∀ x, 0 ≤ (vol.handle x).ref) :
    Borrows
      (vol.setHandle ip
        { vol.handle ip with ref := (vol.handle ip).ref - 1 })
      vol (0 + one ip) where
  ref := by
    intro x
    by_cases same : x = ip
    · rw [same, setHandle_handle_self, Pi.add_apply, one_self]
      simp
    · rw [setHandle_handle_of_ne _ same, Pi.add_apply, one_of_ne same]
      simp
  kept := by
    intro x _
    by_cases same : x = ip
    · rw [same, setHandle_handle_self]
      exact ⟨rfl, id⟩
    · rw [setHandle_handle_of_ne _ same]
      exact ⟨rfl, id⟩
  nonneg := by
    intro x
    by_cases same : x = ip
    · have referenced := refers.referenced
      rw [same, setHandle_handle_self]
      dsimp only
      omega
    · rw [setHandle_handle_of_ne _ same]
      exact nonneg x

theorem Borrows.load
    (borrows : Borrows base vol extra)
    (ip : InodeIndex) :
    Borrows base
      (vol.setHandle ip { vol.handle ip with valid := true }) extra where
  ref := by
    intro x
    by_cases same : x = ip
    · rw [same, setHandle_handle_self]
      exact borrows.ref ip
    · rw [setHandle_handle_of_ne _ same]
      exact borrows.ref x
  kept := by
    intro x referenced
    obtain ⟨isInum, valid⟩ := borrows.kept x referenced
    by_cases same : x = ip
    · rw [same] at isInum ⊢
      rw [setHandle_handle_self]
      exact ⟨isInum, fun _ => rfl⟩
    · rw [setHandle_handle_of_ne _ same]
      exact ⟨isInum, valid⟩
  nonneg := borrows.nonneg

theorem Refers.gets (refers : vol.Refers ip inum) :
    vol.Gets inum ip
      (vol.setHandle ip
        { vol.handle ip with ref := (vol.handle ip).ref + 1 }) where
  node := rfl
  others := fun other different => Function.update_of_ne different ..
  isInum := by
    rw [setHandle_handle_self]
    exact refers.isInum
  ref := by
    rw [setHandle_handle_self]
  shared := by
    intro _
    rw [setHandle_handle_self]
    exact ⟨refers.isInum, rfl⟩
  fresh := by
    intro unused
    have referenced := refers.referenced
    omega

theorem gets_fresh
    (unused : (vol.handle ip).ref = 0)
    (nowhere :
      ∀ other, 0 < (vol.handle other).ref → (vol.handle other).inum ≠ inum) :
    vol.Gets inum ip
      (vol.setHandle ip { inum := inum, ref := 1, valid := false }) where
  node := rfl
  others := fun other different => Function.update_of_ne different ..
  isInum := by
    rw [setHandle_handle_self]
  ref := by
    rw [setHandle_handle_self, unused]
    rfl
  shared := by
    intro referenced
    rw [unused] at referenced
    exact absurd referenced (Int.lt_irrefl 0)
  fresh := by
    intro _
    rw [setHandle_handle_self]
    exact ⟨rfl, nowhere⟩

end Volume

namespace FileSystem

variable {tolerated : FileSystem → FsPanic → Prop}
variable {fs later : FileSystem} {m : Nat → Dinode} {vol : Volume}
variable {lagging : Option Nat}
variable {ip : InodeIndex} {inum : Nat}

/-- Another in-core inode in a slot of the table. -/
def withInode (fs : FileSystem) (ip : InodeIndex) (inode : Inode) :
    FileSystem :=
  { fs with inode := Function.update fs.inode ip inode }

theorem Represents.nonneg
    (represents : fs.Represents vol lagging)
    (ip : InodeIndex) :
    0 ≤ (vol.handle ip).ref := by
  obtain ⟨m, mounted, isVolume⟩ := represents
  subst isVolume
  exact mounted.nonneg ip

theorem Represents.refers_unique
    {other : InodeIndex}
    (represents : fs.Represents vol lagging)
    (refers : vol.Refers ip inum)
    (refersOther : vol.Refers other inum) :
    ip = other := by
  obtain ⟨m, mounted, isVolume⟩ := represents
  subst isVolume
  exact mounted.unique refers.referenced refersOther.referenced
    (refers.isInum.trans refersOther.isInum.symm)

@[simp]
theorem withInode_self
    (inode : Inode) :
    (fs.withInode ip inode).inode ip = inode :=
  Function.update_self ..

theorem setInode_done
    (change : Inode → Inode) :
    setInode ip change fs =
      .done (fs.withInode ip (change (fs.inode ip))) () :=
  rfl

theorem withInode_withInode
    (first second : Inode) :
    (fs.withInode ip first).withInode ip second = fs.withInode ip second := by
  unfold withInode
  rw [Function.update_idem]

theorem Mounted.setSlot
    (mounted : fs.Mounted m lagging)
    (ip : InodeIndex)
    (slot : Inode)
    (nonneg : 0 ≤ slot.ref)
    (fits :
      0 < slot.ref →
        slot.dev = ROOTDEV ∧ slot.inum < NINODES ∧
          (∀ other, other ≠ ip → 0 < (fs.inode other).ref →
            (fs.inode other).inum ≠ slot.inum) ∧
          (slot.valid = true →
            slot.toDinode = m slot.inum ∧ (m slot.inum).type ≠ 0))
    (lags :
      lagging = some (fs.inode ip).inum → 0 < (fs.inode ip).ref →
        (fs.inode ip).valid = true →
          0 < slot.ref ∧ slot.valid = true ∧
            slot.inum = (fs.inode ip).inum) :
    (fs.withInode ip slot).Mounted m lagging ∧
      (fs.withInode ip slot).volumeOf m =
        (fs.volumeOf m).setHandle ip slot.handle := by
  have here : (fs.withInode ip slot).inode ip = slot :=
    Function.update_self ..
  have elsewhere :
      ∀ other, other ≠ ip →
        (fs.withInode ip slot).inode other = fs.inode other :=
    fun other different => Function.update_of_ne different ..
  constructor
  · exact {
      formatted := mounted.formatted
      fits := mounted.fits
      noHoles := mounted.noHoles
      bounded := mounted.bounded
      nonneg := by
        intro other
        by_cases same : other = ip
        · rw [same, here]
          exact nonneg
        · rw [elsewhere other same]
          exact mounted.nonneg other
      dev := by
        intro other referenced
        by_cases same : other = ip
        · rw [same, here] at referenced ⊢
          exact (fits referenced).1
        · rw [elsewhere other same] at referenced ⊢
          exact mounted.dev referenced
      inArea := by
        intro other referenced
        by_cases same : other = ip
        · rw [same, here] at referenced ⊢
          exact (fits referenced).2.1
        · rw [elsewhere other same] at referenced ⊢
          exact mounted.inArea referenced
      unique := by
        intro first second firstReferenced secondReferenced same
        by_cases isFirst : first = ip
        · by_cases isSecond : second = ip
          · rw [isFirst, isSecond]
          · rw [isFirst, here] at firstReferenced same
            rw [elsewhere second isSecond] at secondReferenced same
            exact absurd same.symm
              ((fits firstReferenced).2.2.1 second isSecond secondReferenced)
        · by_cases isSecond : second = ip
          · rw [isSecond, here] at secondReferenced same
            rw [elsewhere first isFirst] at firstReferenced same
            exact absurd same
              ((fits secondReferenced).2.2.1 first isFirst firstReferenced)
          · rw [elsewhere first isFirst] at firstReferenced same
            rw [elsewhere second isSecond] at secondReferenced same
            exact mounted.unique firstReferenced secondReferenced same
      loaded := by
        intro other referenced valid
        by_cases same : other = ip
        · rw [same, here] at referenced valid ⊢
          exact (fits referenced).2.2.2 valid
        · rw [elsewhere other same] at referenced valid ⊢
          exact mounted.loaded referenced valid
      lags := by
        intro other isLagging
        obtain ⟨holder, referenced, valid, isInum⟩ := mounted.lags isLagging
        by_cases same : holder = ip
        · rw [same] at referenced valid isInum
          refine ⟨ip, ?_⟩
          rw [here, ← isInum]
          apply lags _ referenced valid
          rw [isLagging, isInum]
        · refine ⟨holder, ?_⟩
          rw [elsewhere holder same]
          exact ⟨referenced, valid, isInum⟩
    }
  · apply Volume.ext
    · rfl
    · funext other
      unfold volumeOf Volume.setHandle
      dsimp only
      by_cases same : other = ip
      · rw [same, Function.update_self, here]
      · rw [Function.update_of_ne same, elsewhere other same]

/-!
## References
-/

/-- An in-core inode with another reference. -/
def Inode.taken (inode : Inode) : Inode :=
  { inode with ref := inode.ref + 1 }

theorem idup_represents
    (represents : fs.Represents vol lagging)
    (refers : vol.Refers ip inum) :
    (idup ip fs).Ends tolerated
      (fun result later =>
        result = ip ∧
          ∃ after, later.Represents after lagging ∧
            vol.Gets inum ip after) := by
  obtain ⟨m, mounted, isVolume⟩ := represents
  subst isVolume
  have gets := refers.gets
  obtain ⟨_, referenced⟩ := refers
  have referenced : 0 < (fs.inode ip).ref := referenced
  have positive : 0 < (fs.inode ip).ref + 1 := by
    omega
  obtain ⟨mountedNow, volume⟩ :=
    mounted.setSlot ip (Inode.taken (fs.inode ip))
      (Int.le_of_lt positive)
      (fun _ =>
        ⟨mounted.dev referenced, mounted.inArea referenced,
          fun other different taken same =>
            different (mounted.unique taken referenced same),
          fun valid => mounted.loaded referenced valid⟩)
      (fun _ _ valid => ⟨positive, valid, rfl⟩)
  refine ⟨rfl, _, ⟨m, mountedNow, volume.symm⟩, ?_⟩
  exact gets

/-- The in-core inode that `iget` makes of an unused slot. -/
def Inode.renewed (inode : Inode) (dev inum : Nat) : Inode :=
  { inode with dev := dev, inum := inum, ref := 1, valid := false }

theorem iget_tolerates
    (represents : fs.Represents vol lagging)
    (inArea : inum < NINODES)
    (full : (∀ ip, (fs.inode ip).ref ≠ 0) → tolerated fs .igetNoInodes) :
    (iget ROOTDEV inum fs).Ends tolerated
      (fun ip later =>
        ∃ after, later.Represents after lagging ∧
          vol.Gets inum ip after) := by
  unfold iget
  apply ends_get
  cases cached : fs.cached? ROOTDEV inum with
  | some ip =>
      have found := List.find?_some cached
      simp only [Bool.and_eq_true, decide_eq_true_eq, beq_iff_eq] at found
      have refers : vol.Refers ip inum := by
        obtain ⟨m, mounted, isVolume⟩ := represents
        subst isVolume
        exact ⟨found.2, found.1.1⟩
      apply (idup_represents represents refers).mono
      rintro result later ⟨isIp, after, represents, gets⟩
      rw [isIp]
      exact ⟨after, represents, gets⟩
  | none =>
      dsimp only
      cases empty : fs.empty? with
      | none =>
          apply full
          intro ip isZero
          have used := List.find?_eq_none.mp empty ip (List.mem_finRange ip)
          exact used (beq_iff_eq.mpr isZero)
      | some ip =>
          obtain ⟨m, mounted, isVolume⟩ := represents
          subst isVolume
          have isZero := List.find?_some empty
          have unused : (fs.inode ip).ref = 0 := eq_of_beq isZero
          have nowhere :
              ∀ other, 0 < (fs.inode other).ref →
                (fs.inode other).inum ≠ inum := by
            intro other referenced same
            have missed :=
              List.find?_eq_none.mp cached other (List.mem_finRange other)
            apply missed
            simp only [Bool.and_eq_true, decide_eq_true_eq, beq_iff_eq]
            exact ⟨⟨referenced, mounted.dev referenced⟩, same⟩
          obtain ⟨mountedNow, volume⟩ :=
            mounted.setSlot ip
              (Inode.renewed (fs.inode ip) ROOTDEV inum)
              Int.one_nonneg
              (fun _ =>
                ⟨rfl, inArea, fun other _ taken => nowhere other taken,
                  Bool.noConfusion⟩)
              (fun _ taken => absurd unused (ne_of_gt taken))
          refine ⟨_, ⟨m, mountedNow, volume.symm⟩, ?_⟩
          exact Volume.gets_fresh unused nowhere

theorem iget_represents
    (represents : fs.Represents vol lagging)
    (inArea : inum < NINODES) :
    (iget ROOTDEV inum fs).Ends Exhausted
      (fun ip later =>
        ∃ after, later.Represents after lagging ∧
          vol.Gets inum ip after) :=
  iget_tolerates represents inArea id

/-!
## Locks
-/

/-- The in-core inode that `ilock` fills in. -/
def Inode.filled (inode : Inode) (dinode : Dinode) : Inode :=
  { inode with toDinode := dinode, valid := true }

theorem ilock_represents
    (represents : fs.Represents vol lagging)
    (refers : vol.Refers ip inum)
    (inUse : (vol.node inum).type ≠ 0) :
    (ilock ip fs).Ends tolerated
      (fun _ later =>
        later.Represents
          (vol.setHandle ip { vol.handle ip with valid := true })
          lagging) := by
  obtain ⟨m, mounted, isVolume⟩ := represents
  subst isVolume
  obtain ⟨isInum, referenced⟩ := refers
  have isInum : (fs.inode ip).inum = inum := isInum
  have referenced : 0 < (fs.inode ip).ref := referenced
  have inUse : (m inum).type ≠ 0 := inUse
  unfold ilock
  apply ends_superblock
  apply ends_inodeAt
  cases valid : (fs.inode ip).valid with
  | true =>
      have same := (mounted.loaded referenced valid).1
      rw [isInum] at same
      have sameType : (fs.inode ip).type = (m inum).type :=
        congrArg Dinode.type same
      rw [if_neg Bool.noConfusion]
      apply ends_inodeAt
      rw [if_neg]
      · refine ⟨m, mounted, ?_⟩
        have loaded :
            { (fs.volumeOf m).handle ip with valid := true } =
              (fs.volumeOf m).handle ip := by
          have isValid : ((fs.volumeOf m).handle ip).valid = true := valid
          rw [← isValid]
        rw [loaded]
        unfold Volume.setHandle
        rw [Function.update_eq_self]
      · rw [sameType]
        exact inUse
  | false =>
      rw [if_pos rfl]
      apply ends_bread
      have notLagging : lagging ≠ some inum := by
        intro isLagging
        obtain ⟨holder, taken, isValid, same⟩ := mounted.lags isLagging
        have here :=
          mounted.unique taken referenced (same.trans isInum.symm)
        rw [here, valid] at isValid
        cases isValid
      have inArea : inum < NINODES := by
        rw [← isInum]
        exact mounted.inArea referenced
      have stored :
          Dinode.ofBlock
              (fs.disk (fs.sb.inodestart + (fs.inode ip).inum / IPB))
              ((fs.inode ip).inum % IPB) =
            m inum := by
        have read := mounted.fits.stored inArea notLagging
        rw [mounted.formatted, isInum]
        exact read
      obtain ⟨mountedNow, volume⟩ :=
        mounted.setSlot ip (Inode.filled (fs.inode ip) (m inum))
          (Int.le_of_lt referenced)
          (fun _ =>
            ⟨mounted.dev referenced, mounted.inArea referenced,
              fun other different taken same =>
                different (mounted.unique taken referenced same),
              fun _ => by
                have isHere :
                    (Inode.filled (fs.inode ip) (m inum)).inum = inum :=
                  isInum
                rw [isHere]
                exact ⟨rfl, inUse⟩⟩)
          (fun _ _ _ => ⟨referenced, rfl, rfl⟩)
      have loads :
          (setInode ip fun inode =>
            { inode with
              toDinode :=
                Dinode.ofBlock
                  (fs.disk (fs.sb.inodestart + (fs.inode ip).inum / IPB))
                  (inode.inum % IPB)
              valid := true }) fs =
            .done (fs.withInode ip (Inode.filled (fs.inode ip) (m inum))) () := by
        rw [← stored]
        rfl
      apply ends_done loads
      apply ends_inodeAt
      rw [if_neg]
      · exact ⟨m, mountedNow, volume.symm⟩
      · rw [withInode_self]
        exact inUse

theorem iunlock_represents
    (represents : fs.Represents vol lagging)
    (refers : vol.Refers ip inum) :
    (iunlock ip fs).Ends tolerated (fun _ later => later = fs) := by
  obtain ⟨m, mounted, isVolume⟩ := represents
  subst isVolume
  have referenced : 0 < (fs.inode ip).ref := refers.referenced
  unfold iunlock
  apply ends_inodeAt
  rw [if_neg (by omega)]
  rfl

/-!
## Giving references back
-/

/-- An in-core inode that has been given back once. -/
def Inode.dropped (inode : Inode) : Inode :=
  { inode with
    ref := inode.ref - 1
    valid := if inode.ref = 1 then false else inode.valid }

theorem iput_represents
    (represents : fs.Represents vol none)
    (refers : vol.Refers ip inum)
    (stays : ¬ vol.Dies ip) :
    (iput ip fs).Ends tolerated
      (fun _ later => later.Represents (vol.put ip) none) := by
  obtain ⟨m, mounted, isVolume⟩ := represents
  subst isVolume
  obtain ⟨isInum, referenced⟩ := refers
  have referenced : 0 < (fs.inode ip).ref := referenced
  obtain ⟨mountedNow, volume⟩ :=
    mounted.setSlot ip (Inode.dropped (fs.inode ip))
      (by
        change 0 ≤ (fs.inode ip).ref - 1
        omega)
      (fun _ =>
        ⟨mounted.dev referenced, mounted.inArea referenced,
          fun other different taken same =>
            different (mounted.unique taken referenced same),
          fun valid => by
            apply mounted.loaded referenced
            by_contra invalid
            have isDropped :
                (Inode.dropped (fs.inode ip)).valid =
                  if (fs.inode ip).ref = 1 then false
                  else (fs.inode ip).valid :=
              rfl
            rw [isDropped] at valid
            split at valid
            · cases valid
            · exact invalid valid⟩)
      (fun isLagging => by cases isLagging)
  have put :
      (fs.volumeOf m).put ip =
        (fs.volumeOf m).setHandle ip
          (Inode.dropped (fs.inode ip)).handle := by
    unfold Volume.put
    rw [if_neg stays]
    rfl
  have represents :
      (fs.withInode ip (Inode.dropped (fs.inode ip))).Represents
        ((fs.volumeOf m).put ip) none :=
    ⟨m, mountedNow, put.trans volume.symm⟩
  unfold iput
  apply ends_done (setInode_done _)
  apply ends_inodeAt
  rw [withInode_self, if_neg]
  · apply ends_inodeAt
    rw [withInode_self]
    split
    next last =>
      have isOne : (fs.inode ip).ref = 1 := by
        have isZero : (fs.inode ip).ref - 1 = 0 := last
        omega
      rw [setInode_done, withInode_self, withInode_withInode]
      unfold Inode.dropped at represents
      rw [if_pos isOne] at represents
      exact represents
    next more =>
      have notOne : (fs.inode ip).ref ≠ 1 := by
        have notZero : (fs.inode ip).ref - 1 ≠ 0 := more
        omega
      unfold Inode.dropped at represents
      rw [if_neg notOne] at represents
      exact represents
  · rintro ⟨last, valid, unlinked⟩
    have last : (fs.inode ip).ref - 1 = 0 := last
    have valid : (fs.inode ip).valid = true := valid
    have unlinked : (fs.inode ip).nlink = 0 := unlinked
    apply stays
    refine ⟨?_, valid, ?_⟩
    · change (fs.inode ip).ref = 1
      omega
    · have same := (mounted.loaded referenced valid).1
      change (m (fs.inode ip).inum).nlink = 0
      rw [← same]
      exact unlinked

/-!
## New inodes
-/

/-- The disk with an inode that has just been taken. -/
def withNewInode (fs : FileSystem) (inum type : Nat) : FileSystem :=
  { fs with disk := Disk.setDinode fs.disk inum (Dinode.zeroed type) }

theorem withNewInode_represents
    {type : Nat}
    (represents : fs.Represents vol none)
    (isFree : (vol.node inum).type = 0)
    (inArea : inum < NINODES)
    (inUse : type ≠ 0)
    (narrow : type < shortModulus) :
    (fs.withNewInode inum type).Represents
      (vol.setNode inum (Volume.newNode type)) none := by
  obtain ⟨m, mounted, isVolume⟩ := represents
  subst isVolume
  have isFree : (m inum).type = 0 := isFree
  have addrs : ∀ index, (m inum).addrs index = 0 :=
    mounted.fits.free (Or.inl isFree)
  have noValue : 0 < shortModulus := by
    decide
  have noBlock : 0 < uintModulus := by
    decide
  have zeroed :
      DiskFits fs.disk (Function.update m inum (Dinode.zeroed type))
        (some inum) none :=
    mounted.fits.change (Dinode.zeroed type) (Or.inl rfl)
      (funext fun index => (addrs index).symm)
      {
        type := narrow
        major := noValue
        minor := noValue
        nlink := noValue
        size := noBlock
        addrs := fun _ => noBlock
      }
      fun isZero => absurd isZero inUse
  have stored := zeroed.storeInode (Or.inr rfl) inArea
  rw [Function.update_self] at stored
  have kept := fun other =>
    mounted.fits.kept_storeInode (Dinode.zeroed type) inArea other
  refine ⟨Function.update m inum (Dinode.zeroed type), ?_, ?_⟩
  · exact {
      formatted := mounted.formatted
      fits := stored
      noHoles := by
        intro other
        by_cases same : other = inum
        · rw [same, Function.update_self]
          intro place inside
          exact absurd inside (Nat.not_lt_zero place)
        · rw [Function.update_of_ne same]
          exact mounted.noHoles_kept (kept other)
      bounded := by
        intro other
        by_cases same : other = inum
        · rw [same, Function.update_self]
          exact Nat.zero_le _
        · rw [Function.update_of_ne same]
          exact mounted.bounded other
      nonneg := mounted.nonneg
      dev := mounted.dev
      inArea := mounted.inArea
      unique := mounted.unique
      loaded := by
        intro ip referenced valid
        obtain ⟨same, isUsed⟩ := mounted.loaded referenced valid
        have other : (fs.inode ip).inum ≠ inum := by
          intro isInum
          rw [isInum] at isUsed
          exact isUsed isFree
        have isOther :
            Function.update m inum (Dinode.zeroed type) (fs.inode ip).inum =
              m (fs.inode ip).inum :=
          Function.update_of_ne other ..
        have isInode : (fs.withNewInode inum type).inode = fs.inode := rfl
        rw [isInode, isOther]
        exact ⟨same, isUsed⟩
      lags := by
        intro other impossible
        cases impossible
    }
  · apply Volume.ext
    · funext other
      unfold volumeOf Volume.setNode
      by_cases same : other = inum
      · rw [same]
        simp only [Function.update_self]
        rfl
      · simp only [Function.update_of_ne same]
        exact (mounted.node_kept (kept other)).symm
    · rfl

theorem iallocFrom_ends
    {type : Nat}
    (represents : fs.Represents vol none)
    (inUse : type ≠ 0)
    (narrow : type < shortModulus)
    (fuel start : Nat)
    (isEnd : start + fuel = NINODES)
    (positive : 0 < start)
    (before :
      ∀ inum, 0 < inum → inum < start →
        (Disk.dinode fs.disk inum).type ≠ 0) :
    (iallocFrom ROOTDEV type fuel start fs).Ends Exhausted
      (fun ip later =>
        ∃ inum after, 0 < inum ∧ inum < NINODES ∧
          (vol.node inum).type = 0 ∧ later.Represents after none ∧
          (vol.setNode inum (Volume.newNode type)).Gets inum ip after) := by
  induction fuel generalizing start with
  | zero =>
      intro inum isPositive inArea
      apply before inum isPositive
      omega
  | succ fuel inductionHypothesis =>
      have inArea : start < NINODES := by
        omega
      obtain ⟨m, mounted, isVolume⟩ := represents
      have block :
          fs.sb.inodestart + start / IPB = Disk.inodeBlock start := by
        rw [mounted.formatted]
        rfl
      have isStored : Disk.dinode fs.disk start = m start :=
        mounted.fits.stored inArea (Option.some_ne_none start).symm
      unfold iallocFrom
      apply ends_superblock
      rw [block]
      apply ends_bread
      split
      next isFree =>
        have isFree : (vol.node start).type = 0 := by
          rw [isVolume]
          change (m start).type = 0
          rw [← isStored]
          exact isFree
        have representsNow :=
          withNewInode_represents ⟨m, mounted, isVolume⟩ isFree inArea inUse
            narrow
        apply ends_store
        apply ends_bwrite
        apply (iget_represents representsNow inArea).mono
        rintro ip later ⟨after, represents, gets⟩
        exact ⟨start, after, positive, inArea, isFree, represents, gets⟩
      next isUsed =>
        apply inductionHypothesis (start + 1) (by omega) (Nat.succ_pos start)
        intro inum isPositive isBefore
        rcases Nat.lt_succ_iff_lt_or_eq.mp isBefore with earlier | same
        · exact before inum isPositive earlier
        · rw [same]
          exact isUsed

theorem ialloc_represents
    {type : Nat}
    (represents : fs.Represents vol none)
    (inUse : type ≠ 0)
    (narrow : type < shortModulus) :
    (ialloc ROOTDEV type fs).Ends Exhausted
      (fun ip later =>
        ∃ inum after, 0 < inum ∧ inum < NINODES ∧
          (vol.node inum).type = 0 ∧ later.Represents after none ∧
          (vol.setNode inum (Volume.newNode type)).Gets inum ip after) := by
  have formatted : fs.sb = imageSuperblock := by
    obtain ⟨m, mounted, _⟩ := represents
    exact mounted.formatted
  unfold ialloc
  apply ends_superblock
  apply iallocFrom_ends represents inUse narrow
  · rw [formatted]
    rfl
  · exact Nat.one_pos
  · intro inum positive before
    omega

end FileSystem

end MyOS

import Mathlib.Data.List.Nodup
import TreeShell.Proofs.Volume.Table

/-! The shape of a volume. Children and parents agree, and every inode is found below one
of the tops: the root and the loose inodes, which are in the table but in no directory.
Loose inodes stand only between the parts of an operation, so that each of its parts can
be looked at by itself. -/
namespace TreeShell.Volume

/-- An inode is found `steps` levels below `top`. -/
inductive Leads (v : Volume) (top : InodeId) : (steps : Nat) → (id : InodeId) → Prop where
  | here : Leads v top 0 top
  | down {steps : Nat} {directory id : InodeId} {name : Text}
      (prior : Leads v top steps directory) (listed : (name, id) ∈ v.entries directory) :
      Leads v top (steps + 1) id

/-- Ways down are put together, and their steps add up. -/
theorem Leads.trans {v : Volume} {top middle id : InodeId} {first second : Nat}
    (left : Leads v top first middle) (right : Leads v middle second id) :
    Leads v top (first + second) id := by
  induction right with
  | here => exact left
  | down _ listed ih => exact ih.down listed

/-- A way that goes down begins with a child. -/
theorem Leads.head {v : Volume} {top id : InodeId} {steps : Nat} (h : Leads v top (steps + 1) id) :
    ∃ name child, (name, child) ∈ v.entries top ∧ Leads v child steps id := by
  induction steps generalizing id with
  | zero =>
      cases h with
      | @down _ d _ name prior listed =>
          cases prior with
          | here => exact ⟨name, id, listed, .here⟩
  | succ steps ih =>
      cases h with
      | down prior listed =>
          obtain ⟨name, child, hChild, hRest⟩ := ih prior
          exact ⟨name, child, hChild, hRest.down listed⟩

theorem Leads.mono {v w : Volume} (h : ∀ d, v.entries d ⊆ w.entries d) {top id : InodeId}
    {steps : Nat} (hLeads : Leads v top steps id) : Leads w top steps id := by
  induction hLeads with
  | here => exact .here
  | down _ listed ih => exact ih.down (h _ listed)

/-- Children and parents agree, and everything is below the root or a loose inode. -/
structure Forest (loose : List InodeId) (v : Volume) : Prop where
  rootDirectory : v.isDirectory root = true
  rootParent : v.parentOf? root = none
  topsNodup : (root :: loose).Nodup
  looseHeld : ∀ id ∈ loose, v.Holds id
  entry : ∀ d name id, (name, id) ∈ v.entries d →
    id ∉ root :: loose ∧ v.Holds id ∧ v.nameOf id = name ∧ v.parentOf? id = some d
  namesNodup : ∀ d, ((v.entries d).map Prod.fst).Nodup
  underTop : ∀ id, v.Holds id → ∃ top ∈ root :: loose, ∃ steps, Leads v top steps id

/-- The fresh volume is a root without children. -/
theorem forest_fresh (now : Instant) : Forest [] (fresh now) := by
  have hGet : ∀ id, (fresh now).get? id =
      if id = root then some ⟨[], none, now, now, .directory []⟩ else none := by
    intro id
    cases id <;> simp [fresh, get?, root]
  have hEntries : ∀ id, (fresh now).entries id = [] := by
    intro id
    by_cases h : id = root <;> simp [entries, hGet, h, Inode.entries]
  refine ⟨?_, ?_, ?_, ?_, ?_, ?_, ?_⟩
  · simp [isDirectory, hGet, Inode.isDirectory]
  · simp [parentOf?, hGet]
  · simp
  · simp
  · simp [hEntries]
  · simp [hEntries]
  · intro id h
    by_cases hRoot : id = root
    · subst hRoot
      exact ⟨root, by simp, 0, .here⟩
    · simp [Holds, hGet, hRoot] at h

section Shape

variable {loose : List InodeId} {v : Volume} (h : Forest loose v)
include h

/-- Being a forest depends on links and kinds only. -/
theorem Forest.sameShape {w : Volume} (hw : SameShape v w) : Forest loose w where
  rootDirectory := by rw [hw.isDirectory, h.rootDirectory]
  rootParent := by rw [hw.parentOf?, h.rootParent]
  topsNodup := h.topsNodup
  looseHeld id hId := (hw.holds id).mpr (h.looseHeld id hId)
  entry d name id hEntry := by
    rw [hw.entries] at hEntry
    rw [hw.holds, hw.nameOf, hw.parentOf?]
    exact h.entry d name id hEntry
  namesNodup d := by rw [hw.entries]; exact h.namesNodup d
  underTop id hId := by
    obtain ⟨top, hTop, steps, hLeads⟩ := h.underTop id ((hw.holds id).mp hId)
    exact ⟨top, hTop, steps, hLeads.mono fun d => by rw [hw.entries]; exact List.Subset.refl _⟩

/-- No directory lists a top. -/
theorem Forest.top_not_listed {top d : InodeId} {name : Text} (hTop : top ∈ root :: loose) :
    (name, top) ∉ v.entries d :=
  fun hEntry => (h.entry d name top hEntry).1 hTop

/-- An inode is listed in one directory only. -/
theorem Forest.directory_unique {d e id : InodeId} {name other : Text}
    (hd : (name, id) ∈ v.entries d) (he : (other, id) ∈ v.entries e) : d = e := by
  have hSame := (h.entry d name id hd).2.2.2.symm.trans (h.entry e other id he).2.2.2
  exact Option.some.inj hSame

/-- A name is listed once in a directory. -/
theorem Forest.id_unique {d id other : InodeId} {name : Text} (hId : (name, id) ∈ v.entries d)
    (hOther : (name, other) ∈ v.entries d) : id = other :=
  congrArg Prod.snd (List.inj_on_of_nodup_map (h.namesNodup d) hId hOther rfl)

/-- Children are listed under their names. -/
theorem Forest.childNames (d : InodeId) :
    (v.entries d).map (fun child => v.nameOf child.2) = (v.entries d).map Prod.fst :=
  List.map_congr_left fun child hChild => (h.entry d child.1 child.2 hChild).2.2.1

/-- A directory lists no inode under two names. -/
theorem Forest.idsNodup (d : InodeId) : ((v.entries d).map Prod.snd).Nodup := by
  refine List.Nodup.map_on ?_ (h.namesNodup d).of_map
  rintro ⟨name, id⟩ hFirst ⟨other, _⟩ hSecond rfl
  have hSame := (h.entry d name id hFirst).2.2.1.symm.trans (h.entry d other id hSecond).2.2.1
  rw [hSame]

/-- An inode that is no top is listed under its name in its parent. -/
theorem Forest.exists_listed {id : InodeId} (hId : v.Holds id) (hTop : id ∉ root :: loose) :
    ∃ d, v.parentOf? id = some d ∧ (v.nameOf id, id) ∈ v.entries d := by
  obtain ⟨top, hMem, steps, hLeads⟩ := h.underTop id hId
  cases hLeads with
  | here => exact absurd hMem hTop
  | @down _ d _ name _ listed =>
      obtain ⟨_, _, hName, hParent⟩ := h.entry d name id listed
      exact ⟨d, hParent, by rw [hName]; exact listed⟩

/-- There is one way only from a top to an inode. -/
theorem Forest.leads_unique {top other id : InodeId} {steps count : Nat}
    (hTop : top ∈ root :: loose) (hOther : other ∈ root :: loose)
    (hFirst : Leads v top steps id) (hSecond : Leads v other count id) :
    top = other ∧ steps = count := by
  induction hFirst generalizing count with
  | here =>
      cases hSecond with
      | here => exact ⟨rfl, rfl⟩
      | down _ listed => exact absurd listed (h.top_not_listed hTop)
  | down _ listed ih =>
      cases hSecond with
      | here => exact absurd listed (h.top_not_listed hOther)
      | @down count e _ _ prior listed' =>
          obtain rfl := h.directory_unique listed listed'
          obtain ⟨hSame, hCount⟩ := ih prior
          exact ⟨hSame, congrArg (· + 1) hCount⟩

theorem Forest.holds_of_leads {top id : InodeId} {steps : Nat} (hTop : v.Holds top)
    (hLeads : Leads v top steps id) : v.Holds id := by
  cases hLeads with
  | here => exact hTop
  | down _ listed => exact (h.entry _ _ _ listed).2.1

theorem Forest.top_held {top : InodeId} (hTop : top ∈ root :: loose) : v.Holds top := by
  rcases List.mem_cons.mp hTop with rfl | hLoose
  · exact holds_of_isDirectory h.rootDirectory
  · exact h.looseHeld top hLoose

/-- The inodes on the way from a top, the last one first. They are as many as there are
levels, since each of them is on a level of its own. -/
theorem Forest.exists_chain {top id : InodeId} {steps : Nat} (hTop : top ∈ root :: loose)
    (hLeads : Leads v top steps id) :
    ∃ chain : List InodeId, chain.length = steps + 1 ∧ chain.Nodup ∧
      ∀ x ∈ chain, ∃ count ≤ steps, Leads v top count x := by
  induction hLeads with
  | here => exact ⟨[top], rfl, by simp, by simpa using Leads.here⟩
  | @down steps d id name prior listed ih =>
      obtain ⟨chain, hLength, hNodup, hChain⟩ := ih
      have hLast := prior.down listed
      refine ⟨id :: chain, by simp [hLength], List.nodup_cons.mpr ⟨?_, hNodup⟩, ?_⟩
      · intro hMem
        obtain ⟨count, hCount, hOther⟩ := hChain id hMem
        have hSame := (h.leads_unique hTop hTop hLast hOther).2
        omega
      · intro x hx
        rcases List.mem_cons.mp hx with rfl | hx
        · exact ⟨steps + 1, Nat.le_refl _, hLast⟩
        · obtain ⟨count, hCount, hOther⟩ := hChain x hx
          exact ⟨count, Nat.le_succ_of_le hCount, hOther⟩

/-- A way down in a forest is shorter than the table is long, since it meets no inode twice. -/
theorem Forest.steps_lt_of_top {top id : InodeId} {steps : Nat} (hTop : top ∈ root :: loose)
    (hLeads : Leads v top steps id) : steps < v.slots.size := by
  obtain ⟨chain, hLength, hNodup, hChain⟩ := h.exists_chain hTop hLeads
  have hSubset : chain ⊆ List.range v.slots.size := by
    intro x hx
    obtain ⟨count, _, hOther⟩ := hChain x hx
    exact List.mem_range.mpr (h.holds_of_leads (h.top_held hTop) hOther).lt
  have hBound := hNodup.length_le_of_subset hSubset
  rw [List.length_range] at hBound
  omega

/-- No way is longer than the table. -/
theorem Forest.steps_lt {top id : InodeId} {steps : Nat} (hTop : v.Holds top)
    (hLeads : Leads v top steps id) : steps < v.slots.size := by
  obtain ⟨above, hAbove, count, hPrior⟩ := h.underTop top hTop
  have hBound := h.steps_lt_of_top hAbove (hPrior.trans hLeads)
  omega

/-- No inode is below itself. -/
theorem Forest.steps_eq_zero {id : InodeId} {steps : Nat} (hId : v.Holds id)
    (hLeads : Leads v id steps id) : steps = 0 := by
  obtain ⟨top, hTop, count, hPrior⟩ := h.underTop id hId
  have hSame := (h.leads_unique hTop hTop hPrior (hPrior.trans hLeads)).2
  omega

end Shape

/-- A new inode without children is loose. -/
theorem Forest.inserted {loose : List InodeId} {v w : Volume} {id : InodeId}
    (h : Forest loose v) (hw : Inserted v w id) : Forest (id :: loose) w := by
  have hNe : ∀ x, v.Holds x → x ≠ id := by
    rintro x hx rfl
    exact hw.fresh hx
  have hRoot := hNe root (holds_of_isDirectory h.rootDirectory)
  refine ⟨?_, ?_, ?_, ?_, ?_, ?_, ?_⟩
  · rw [hw.isDirectory root hRoot, h.rootDirectory]
  · rw [hw.parentOf? root hRoot, h.rootParent]
  · obtain ⟨hRootLoose, hLoose⟩ := List.nodup_cons.mp h.topsNodup
    have hId : id ∉ loose := fun hMem => hw.fresh (h.looseHeld id hMem)
    simp [hRoot, hRootLoose, hId, hLoose]
  · intro x hx
    rw [hw.holds]
    rcases List.mem_cons.mp hx with rfl | hx
    · exact Or.inl rfl
    · exact Or.inr (h.looseHeld x hx)
  · intro d name x hEntry
    rw [hw.entries] at hEntry
    obtain ⟨hTop, hHeld, hName, hParent⟩ := h.entry d name x hEntry
    have hx := hNe x hHeld
    rw [hw.holds, hw.nameOf x hx, hw.parentOf? x hx]
    exact ⟨by simpa [hx] using hTop, Or.inr hHeld, hName, hParent⟩
  · intro d
    rw [hw.entries]
    exact h.namesNodup d
  · intro x hx
    rcases (hw.holds x).mp hx with rfl | hx
    · exact ⟨x, by simp, 0, .here⟩
    · obtain ⟨top, hTop, steps, hLeads⟩ := h.underTop x hx
      refine ⟨top, ?_, steps, hLeads.mono fun d => by rw [hw.entries]; exact List.Subset.refl _⟩
      rcases List.mem_cons.mp hTop with rfl | hTop
      · exact List.mem_cons_self ..
      · simp [hTop]

/-- A loose inode is entered into a directory that is not below it, under a new name. -/
theorem Forest.attached {loose : List InodeId} {v w : Volume} {directory id : InodeId} {name : Text}
    (h : Forest (id :: loose) v)
    (hw : Relinked v w directory (v.entries directory ++ [(name, id)]) id name (some directory))
    (hHeld : v.Holds directory) (hBelow : ∀ steps, ¬ Leads v id steps directory)
    (hName : name ∉ (v.entries directory).map Prod.fst) : Forest loose w := by
  have hNodup := h.topsNodup
  simp only [List.nodup_cons, List.mem_cons, not_or] at hNodup
  obtain ⟨⟨hRoot, hRootLoose⟩, hId, hLoose⟩ := hNodup
  have hSubset : ∀ d, v.entries d ⊆ w.entries d := by
    intro d
    rw [hw.entries]
    split
    · rename_i hd
      subst hd
      exact List.subset_append_left _ _
    · exact List.Subset.refl _
  refine ⟨?_, ?_, ?_, ?_, ?_, ?_, ?_⟩
  · rw [hw.isDirectory, h.rootDirectory]
  · rw [hw.parentOf?, if_neg hRoot, h.rootParent]
  · exact List.nodup_cons.mpr ⟨hRootLoose, hLoose⟩
  · exact fun x hx => (hw.holds x).mpr (h.looseHeld x (List.mem_cons_of_mem _ hx))
  · intro d other x hEntry
    have hCases : (other, x) ∈ v.entries d ∨ d = directory ∧ other = name ∧ x = id := by
      rw [hw.entries] at hEntry
      split at hEntry
      · rename_i hd
        subst hd
        simpa using hEntry
      · exact Or.inl hEntry
    rw [hw.holds, hw.nameOf, hw.parentOf?]
    rcases hCases with hOld | ⟨rfl, rfl, rfl⟩
    · obtain ⟨hTop, hHeld, hName, hParent⟩ := h.entry d other x hOld
      simp only [List.mem_cons, not_or] at hTop
      rw [if_neg hTop.2.1, if_neg hTop.2.1]
      exact ⟨by simp [hTop.1, hTop.2.2], hHeld, hName, hParent⟩
    · rw [if_pos rfl, if_pos rfl]
      exact ⟨by simp [Ne.symm hRoot, hId], h.looseHeld x (by simp), rfl, rfl⟩
  · intro d
    rw [hw.entries]
    split
    · rw [List.map_append, List.nodup_append]
      refine ⟨h.namesNodup directory, by simp, ?_⟩
      rintro other hOther _ hMem rfl
      simp only [List.map_cons, List.map_nil, List.mem_singleton] at hMem
      exact hName (hMem ▸ hOther)
    · exact h.namesNodup d
  · -- What was below the loose inode is now below the top of its directory.
    intro x hx
    obtain ⟨top, hTop, steps, hLeads⟩ := h.underTop x ((hw.holds x).mp hx)
    by_cases hSame : top = id
    · subst hSame
      obtain ⟨above, hAbove, count, hPrior⟩ := h.underTop directory hHeld
      have hOther : above ≠ top := by
        rintro rfl
        exact hBelow count hPrior
      have hListed : (name, top) ∈ w.entries directory := by simp [hw.entries]
      refine ⟨above, ?_, _, ((hPrior.mono hSubset).down hListed).trans (hLeads.mono hSubset)⟩
      simpa [hOther] using hAbove
    · exact ⟨top, by simpa [hSame] using hTop, steps, hLeads.mono hSubset⟩

section Detached

variable {loose : List InodeId} {v w : Volume} {directory id : InodeId}
  (h : Forest loose v) (hListed : (v.nameOf id, id) ∈ v.entries directory)
  (hw : Relinked v w directory ((v.entries directory).filter (·.1 != v.nameOf id)) id
    (v.nameOf id) none)
include h hListed hw

/-- Only the entry of the inode itself is gone. -/
theorem Forest.entries_detached {d x : InodeId} {name : Text} :
    (name, x) ∈ w.entries d ↔ (name, x) ∈ v.entries d ∧ x ≠ id := by
  rw [hw.entries]
  split
  · rename_i hd
    subst hd
    rw [List.mem_filter]
    refine and_congr_right fun hEntry => ?_
    rw [bne_iff_ne, not_iff_not]
    constructor
    · rintro rfl
      exact h.id_unique hEntry hListed
    · rintro rfl
      exact ((h.entry d name x hEntry).2.2.1).symm
  · rename_i hd
    refine ⟨fun hEntry => ⟨hEntry, ?_⟩, And.left⟩
    rintro rfl
    exact hd (h.directory_unique hEntry hListed)

theorem Forest.leads_of_detached {top x : InodeId} {steps : Nat} (hLeads : Leads w top steps x) :
    Leads v top steps x := by
  refine hLeads.mono fun d entry hEntry => ?_
  exact ((h.entries_detached hListed hw).mp hEntry).1

/-- What is below an inode stays there when the inode is taken out. -/
theorem Forest.leads_detached {x : InodeId} {steps : Nat} (hLeads : Leads v id steps x) :
    Leads w id steps x := by
  have hId := (h.entry directory _ id hListed).2.1
  induction hLeads with
  | here => exact .here
  | @down steps d x name prior listed ih =>
      refine ih.down ((h.entries_detached hListed hw).mpr ⟨listed, ?_⟩)
      rintro rfl
      have hCycle := h.steps_eq_zero hId (prior.down listed)
      omega

/-- An inode that is taken out of its directory is loose. -/
theorem Forest.detached : Forest (id :: loose) w := by
  obtain ⟨hTop, hId, _, _⟩ := h.entry directory _ id hListed
  simp only [List.mem_cons, not_or] at hTop
  obtain ⟨hRootLoose, hLoose⟩ := List.nodup_cons.mp h.topsNodup
  refine ⟨?_, ?_, ?_, ?_, ?_, ?_, ?_⟩
  · rw [hw.isDirectory, h.rootDirectory]
  · rw [hw.parentOf?, if_neg (Ne.symm hTop.1), h.rootParent]
  · simp [Ne.symm hTop.1, hRootLoose, hTop.2, hLoose]
  · intro x hx
    rw [hw.holds]
    rcases List.mem_cons.mp hx with rfl | hx
    · exact hId
    · exact h.looseHeld x hx
  · intro d name x hEntry
    obtain ⟨hOld, hx⟩ := (h.entries_detached hListed hw).mp hEntry
    obtain ⟨hTop, hHeld, hName, hParent⟩ := h.entry d name x hOld
    rw [hw.holds, hw.nameOf, hw.parentOf?, if_neg hx, if_neg hx]
    exact ⟨by simpa [hx] using hTop, hHeld, hName, hParent⟩
  · intro d
    rw [hw.entries]
    split
    · exact (h.namesNodup directory).sublist (List.filter_sublist.map _)
    · exact h.namesNodup d
  · intro x hx
    obtain ⟨top, hMem, steps, hLeads⟩ := h.underTop x ((hw.holds x).mp hx)
    have hSplit : (∃ count, Leads w top count x) ∨ ∃ count, Leads w id count x := by
      clear hx
      induction hLeads with
      | here => exact Or.inl ⟨0, .here⟩
      | @down steps d x name prior listed ih =>
          by_cases hSame : x = id
          · subst hSame
            exact Or.inr ⟨0, .here⟩
          · have hKept := (h.entries_detached hListed hw).mpr ⟨listed, hSame⟩
            rcases ih with ⟨count, hCount⟩ | ⟨count, hCount⟩
            · exact Or.inl ⟨count + 1, hCount.down hKept⟩
            · exact Or.inr ⟨count + 1, hCount.down hKept⟩
    rcases hSplit with ⟨count, hCount⟩ | ⟨count, hCount⟩
    · refine ⟨top, ?_, count, hCount⟩
      rcases List.mem_cons.mp hMem with rfl | hMem
      · exact List.mem_cons_self ..
      · simp [hMem]
    · exact ⟨id, by simp, count, hCount⟩

end Detached

/-- A loose inode is taken out of the table with all that is below it. -/
theorem Forest.discarded {loose : List InodeId} {v w : Volume} {id : InodeId} {ids : List InodeId}
    (h : Forest (id :: loose) v) (hw : Discarded v w ids)
    (hIds : ∀ x, x ∈ ids ↔ ∃ steps, Leads v id steps x) : Forest loose w := by
  have hNodup := h.topsNodup
  simp only [List.nodup_cons, List.mem_cons, not_or] at hNodup
  obtain ⟨⟨hRoot, hRootLoose⟩, hId, hLoose⟩ := hNodup
  have hTops : ∀ top ∈ root :: loose, top ∈ root :: id :: loose ∧ top ≠ id := by
    intro top hTop
    rcases List.mem_cons.mp hTop with rfl | hTop
    · exact ⟨by simp, hRoot⟩
    · exact ⟨by simp [hTop], fun hSame => hId (hSame ▸ hTop)⟩
  have hKeep : ∀ top ∈ root :: loose, ∀ steps x, Leads v top steps x → x ∉ ids := by
    intro top hTop steps x hLeads hMem
    obtain ⟨count, hOther⟩ := (hIds x).mp hMem
    have hSame := (h.leads_unique (hTops top hTop).1 (by simp) hLeads hOther).1
    exact (hTops top hTop).2 hSame
  have hMove : ∀ top ∈ root :: loose, ∀ steps x, Leads v top steps x → Leads w top steps x := by
    intro top hTop steps x hLeads
    induction hLeads with
    | here => exact .here
    | @down _ d y name prior listed ih =>
        have hKept : (name, y) ∈ w.entries d := by
          rw [hw.entries, if_neg (hKeep top hTop _ d prior)]
          exact listed
        exact ih.down hKept
  refine ⟨?_, ?_, ?_, ?_, ?_, ?_, ?_⟩
  · rw [hw.isDirectory root (hKeep root (by simp) 0 root .here), h.rootDirectory]
  · rw [hw.parentOf? root (hKeep root (by simp) 0 root .here), h.rootParent]
  · exact List.nodup_cons.mpr ⟨hRootLoose, hLoose⟩
  · intro x hx
    rw [hw.holds]
    exact ⟨hKeep x (by simp [hx]) 0 x .here, h.looseHeld x (by simp [hx])⟩
  · intro d name x hEntry
    rw [hw.entries] at hEntry
    split at hEntry
    · simp at hEntry
    · rename_i hd
      obtain ⟨hTop, hHeld, hName, hParent⟩ := h.entry d name x hEntry
      simp only [List.mem_cons, not_or] at hTop
      have hx : x ∉ ids := by
        intro hMem
        obtain ⟨steps, hLeads⟩ := (hIds x).mp hMem
        cases hLeads with
        | here => exact hTop.2.1 rfl
        | down prior listed =>
            obtain rfl := h.directory_unique hEntry listed
            exact hd ((hIds d).mpr ⟨_, prior⟩)
      rw [hw.holds, hw.nameOf x hx, hw.parentOf? x hx]
      exact ⟨by simp [hTop.1, hTop.2.2], ⟨hx, hHeld⟩, hName, hParent⟩
  · intro d
    rw [hw.entries]
    split
    · simp
    · exact h.namesNodup d
  · intro x hx
    obtain ⟨hOut, hHeld⟩ := (hw.holds x).mp hx
    obtain ⟨top, hTop, steps, hLeads⟩ := h.underTop x hHeld
    have hOther : top ≠ id := by
      rintro rfl
      exact hOut ((hIds x).mpr ⟨steps, hLeads⟩)
    have hMem : top ∈ root :: loose := by simpa [hOther] using hTop
    exact ⟨top, hMem, steps, hMove top hMem steps x hLeads⟩

/-- All that is below an inode is less than `bound` levels away. -/
def Shallow (v : Volume) (bound : Nat) (id : InodeId) : Prop :=
  ∀ steps x, Leads v id steps x → steps < bound

theorem Shallow.pos {v : Volume} {bound : Nat} {id : InodeId} (h : Shallow v bound id) :
    ∃ less, bound = less + 1 :=
  ⟨bound - 1, by have hHere := h 0 id .here; omega⟩

/-- What is below a child is less deep by one. -/
theorem Shallow.child {v : Volume} {bound : Nat} {id child : InodeId} {name : Text}
    (h : Shallow v (bound + 1) id) (hListed : (name, child) ∈ v.entries id) :
    Shallow v bound child := by
  intro steps x hLeads
  have hFirst : Leads v id 1 child := Leads.here.down hListed
  have hBound := h _ x (hFirst.trans hLeads)
  omega

theorem Forest.shallow {loose : List InodeId} {v : Volume} (h : Forest loose v) {id : InodeId}
    (hId : v.Holds id) : Shallow v v.slots.size id :=
  fun _ _ hLeads => h.steps_lt hId hLeads

/-- A bounded descent lists what can be reached in fewer steps than the bound. -/
theorem mem_subtreeWithin {v : Volume} {bound : Nat} {id x : InodeId} :
    x ∈ v.subtreeWithin bound id ↔ ∃ steps < bound, Leads v id steps x := by
  induction bound generalizing id with
  | zero => simp [subtreeWithin]
  | succ bound ih =>
      rw [subtreeWithin, List.mem_cons, List.mem_flatMap]
      constructor
      · rintro (rfl | ⟨⟨name, child⟩, hChild, hx⟩)
        · exact ⟨0, Nat.succ_pos _, .here⟩
        · obtain ⟨steps, hSteps, hLeads⟩ := ih.mp hx
          have hFirst : Leads v id 1 child := Leads.here.down hChild
          exact ⟨1 + steps, by omega, hFirst.trans hLeads⟩
      · rintro ⟨steps, hSteps, hLeads⟩
        cases steps with
        | zero =>
            cases hLeads
            exact Or.inl rfl
        | succ steps =>
            obtain ⟨name, child, hChild, hRest⟩ := hLeads.head
            exact Or.inr ⟨(name, child), hChild, ih.mpr ⟨steps, by omega, hRest⟩⟩

/-- The subtree of an inode is all that is below it. -/
theorem Forest.mem_subtree {loose : List InodeId} {v : Volume} {id x : InodeId}
    (h : Forest loose v) (hId : v.Holds id) :
    x ∈ v.subtree id ↔ ∃ steps, Leads v id steps x := by
  rw [subtree, mem_subtreeWithin]
  constructor
  · rintro ⟨steps, _, hLeads⟩
    exact ⟨steps, hLeads⟩
  · rintro ⟨steps, hLeads⟩
    exact ⟨steps, h.steps_lt hId hLeads, hLeads⟩

/-- In a tree the parents lead back along the children. -/
theorem Forest.parentOf?_eq_some {v : Volume} (h : Forest [] v) {d id : InodeId} :
    v.parentOf? id = some d ↔ (v.nameOf id, id) ∈ v.entries d := by
  constructor
  · intro hParent
    have hId : v.Holds id := by
      cases hNode : v.get? id with
      | none => simp [parentOf?, hNode] at hParent
      | some node => exact holds_iff.mpr ⟨node, hNode⟩
    have hRoot : id ∉ [root] := by
      intro hMem
      rw [List.mem_singleton.mp hMem, h.rootParent] at hParent
      cases hParent
    obtain ⟨e, hOther, hListed⟩ := h.exists_listed hId hRoot
    obtain rfl := Option.some.inj (hParent.symm.trans hOther)
    exact hListed
  · exact fun hListed => (h.entry d _ id hListed).2.2.2

/-- Looking upwards within a bound finds an inode exactly if that many steps lead down from it. -/
theorem Forest.isAbove_iff {v : Volume} (h : Forest [] v) {ancestor id : InodeId} {bound : Nat} :
    v.isAbove ancestor bound id = true ↔ ∃ steps < bound, Leads v ancestor steps id := by
  induction bound generalizing id with
  | zero => simp [isAbove]
  | succ bound ih =>
      rw [isAbove, Bool.or_eq_true, beq_iff_eq]
      constructor
      · rintro (rfl | hUp)
        · exact ⟨0, Nat.succ_pos _, .here⟩
        · cases hParent : v.parentOf? id with
          | none => simp [hParent] at hUp
          | some d =>
              rw [hParent] at hUp
              obtain ⟨steps, hSteps, hLeads⟩ := ih.mp hUp
              exact ⟨steps + 1, by omega, hLeads.down (h.parentOf?_eq_some.mp hParent)⟩
      · rintro ⟨steps, hSteps, hLeads⟩
        cases hLeads with
        | here => exact Or.inl rfl
        | @down steps d _ name prior listed =>
            right
            rw [(h.entry d name id listed).2.2.2]
            exact ih.mpr ⟨steps, by omega, prior⟩

/-- An ancestor is an inode from which a way leads down. -/
theorem Forest.isAncestor_iff {v : Volume} (h : Forest [] v) {ancestor id : InodeId}
    (hAncestor : v.Holds ancestor) :
    v.isAncestor ancestor id = true ↔ ∃ steps, Leads v ancestor steps id := by
  rw [isAncestor, h.isAbove_iff]
  constructor
  · rintro ⟨steps, _, hLeads⟩
    exact ⟨steps, hLeads⟩
  · rintro ⟨steps, hLeads⟩
    exact ⟨steps, h.steps_lt hAncestor hLeads, hLeads⟩

end TreeShell.Volume

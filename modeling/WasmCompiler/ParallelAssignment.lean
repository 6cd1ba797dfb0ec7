import Mathlib.Data.Set.Finite.Basic
import Mathlib.Logic.Function.Basic

/-!
# Parallel Assignment

A parallel assignment writes several targets at once, every one with the value its source
held *before* the assignment. This module is the theory of performing it one step at a
time, over an arbitrary type `L` of locations and `V` of values. A target `t` keeps only
`norm t v` of a value `v` it is given (a narrow location truncates), and
`Progress norm goal targets pending σ` says of a state `σ` reached on the way that every
target no longer pending already holds its goal, and every pending assignment would still
be given its goal by its source as the source is now.

## Main results

* `Progress.assign`: performing a pending assignment whose target no pending source reads
  keeps the progress.
* `Progress.redirect`: a pending source may be replaced by a location holding its value.
* `blocked_permutes`: when every pending target is read by a pending source, the pending
  sources are exactly the pending targets, each read once, so only cycles are left.
* `Hole`, `Hole.assign`, `Hole.close`: one cycle is performed by saving the first source
  in a temporary and following the hole it leaves.
* `Rotation`, `Rotation.swap`, `Rotation.drop`: one cycle is performed by exchanging
  neighbours and dropping its last assignment.
-/

namespace ParallelAssignment

variable {L V : Type*}

/-- What an assignment reads: a location or a constant. -/
inductive Source (L V : Type*) where
  | loc (l : L)
  | const (v : V)

/-- The value of a source in a state. -/
def Source.eval (σ : L → V) : Source L V → V
  | loc l => σ l
  | const v => v

/-- One assignment of a target from a source. -/
structure Assignment (L V : Type*) where
  target : L
  source : Source L V

/-- The assignment reads the location. -/
def Assignment.Reads (a : Assignment L V) (l : L) : Prop := a.source = .loc l

/-- An assignment reads at most one location. -/
theorem Assignment.Reads.unique {a : Assignment L V} {l l' : L} (h : a.Reads l)
    (h' : a.Reads l') : l = l' := by
  rw [Assignment.Reads] at h h'
  rw [h] at h'
  exact Source.loc.inj h'

/-- A source that reads a location holds its content. -/
theorem Assignment.Reads.eval {a : Assignment L V} {l : L} (h : a.Reads l) (σ : L → V) :
    a.source.eval σ = σ l := by
  rw [Assignment.Reads] at h
  rw [h, Source.eval]

/-- A location the assignment does not read may be overwritten. -/
theorem Assignment.eval_update [DecidableEq L] {a : Assignment L V} {l : L}
    (h : ¬ a.Reads l) (σ : L → V) (v : V) :
    a.source.eval (Function.update σ l v) = a.source.eval σ := by
  obtain ⟨t, s⟩ := a
  cases s with
  | const v => rfl
  | loc l' =>
      have hne : l' ≠ l := fun he => h (by rw [Assignment.Reads, he])
      simp [Source.eval, hne]

/-- The state `σ` is on the way to the goal: the pending assignments are to different
targets, each would be given its goal now, and every other target has its goal. -/
structure Progress (norm : L → V → V) (goal : L → V) (targets : Set L)
    (pending : Set (Assignment L V)) (σ : L → V) : Prop where
  /-- Only targets are assigned. -/
  subset : ∀ a ∈ pending, a.target ∈ targets
  /-- The pending assignments have different targets. -/
  inj : ∀ a ∈ pending, ∀ b ∈ pending, a.target = b.target → a = b
  /-- Every pending source still provides the goal of its target. -/
  owed : ∀ a ∈ pending, norm a.target (a.source.eval σ) = goal a.target
  /-- Every target that is not pending has its goal. -/
  done : ∀ t ∈ targets, (∀ a ∈ pending, a.target ≠ t) → norm t (σ t) = goal t

namespace Progress

variable {norm : L → V → V} {goal : L → V} {targets : Set L}
  {pending : Set (Assignment L V)} {σ : L → V}

/-- With nothing pending, every target has its goal. -/
theorem finished (h : Progress norm goal targets ∅ σ) {t : L} (ht : t ∈ targets) :
    norm t (σ t) = goal t :=
  h.done t ht fun _ ha => ha.elim

/-- A location that is neither a target nor read may be overwritten. -/
theorem overwrite [DecidableEq L] (h : Progress norm goal targets pending σ) {l : L} (v : V)
    (hl : l ∉ targets) (hr : ∀ a ∈ pending, ¬ a.Reads l) :
    Progress norm goal targets pending (Function.update σ l v) where
  subset := h.subset
  inj := h.inj
  owed a ha := by rw [Assignment.eval_update (hr a ha)]; exact h.owed a ha
  done t ht hnp := by
    have hne : t ≠ l := fun he => hl (he ▸ ht)
    rw [Function.update_of_ne hne]
    exact h.done t ht hnp

/-- **One assignment.** A pending assignment whose target no *other* pending source reads
is performed; the rest stays on the way. -/
theorem assign [DecidableEq L] (hnorm : ∀ t v, norm t (norm t v) = norm t v)
    (h : Progress norm goal targets pending σ) {a : Assignment L V} (ha : a ∈ pending)
    (hfree : ∀ b ∈ pending, b ≠ a → ¬ b.Reads a.target) :
    Progress norm goal targets (pending \ {a})
      (Function.update σ a.target (norm a.target (a.source.eval σ))) where
  subset b hb := h.subset b hb.1
  inj b hb c hc := h.inj b hb.1 c hc.1
  owed b hb := by
    rw [Assignment.eval_update (hfree b hb.1 hb.2)]
    exact h.owed b hb.1
  done t ht hnp := by
    by_cases hta : t = a.target
    · subst hta
      rw [Function.update_self, hnorm]
      exact h.owed a ha
    · rw [Function.update_of_ne hta]
      refine h.done t ht fun b hb hbt => ?_
      by_cases hba : b = a
      · exact hta (by rw [← hbt, hba])
      · exact hnp b ⟨hb, hba⟩ hbt

/-- **Redirection.** The sources of the pending assignments may change, as long as every
new source provides what the old one did. -/
theorem redirect (h : Progress norm goal targets pending σ)
    {pending' : Set (Assignment L V)}
    (hto : ∀ a' ∈ pending', ∃ a ∈ pending, a.target = a'.target ∧
      norm a.target (a'.source.eval σ) = norm a.target (a.source.eval σ))
    (hfrom : ∀ a ∈ pending, ∃ a' ∈ pending', a'.target = a.target)
    (hinj : ∀ a ∈ pending', ∀ b ∈ pending', a.target = b.target → a = b) :
    Progress norm goal targets pending' σ where
  subset a' ha' := by
    obtain ⟨a, ha, ht, -⟩ := hto a' ha'
    exact ht ▸ h.subset a ha
  inj := hinj
  owed a' ha' := by
    obtain ⟨a, ha, ht, hv⟩ := hto a' ha'
    rw [← ht, hv]
    exact h.owed a ha
  done t ht hnp := by
    refine h.done t ht fun a ha hat => ?_
    obtain ⟨a', ha', ht'⟩ := hfrom a ha
    exact hnp a' ha' (ht'.trans hat)

end Progress

/-! ### Blocked assignments form cycles -/

/-- The pending sources are exactly the pending targets, each read by one assignment. -/
structure Permutes (pending : Set (Assignment L V)) : Prop where
  /-- Every pending target is read. -/
  read : ∀ a ∈ pending, ∃ b ∈ pending, b.Reads a.target
  /-- Every pending assignment reads a pending target. -/
  reads : ∀ b ∈ pending, ∃ a ∈ pending, b.Reads a.target
  /-- No location is read twice. -/
  once : ∀ a ∈ pending, ∀ b ∈ pending, ∀ l, a.Reads l → b.Reads l → a = b

/-- **Blocked assignments permute.** If finitely many assignments to different targets are
all blocked, their sources are a permutation of their targets. -/
theorem blocked_permutes {pending : Set (Assignment L V)} (hfin : pending.Finite)
    (hinj : ∀ a ∈ pending, ∀ b ∈ pending, a.target = b.target → a = b)
    (hblocked : ∀ a ∈ pending, ∃ b ∈ pending, b.Reads a.target) : Permutes pending := by
  have : Finite pending := hfin
  choose reader hmem hreads using hblocked
  let g : pending → pending := fun a => ⟨reader a.1 a.2, hmem a.1 a.2⟩
  have hg : Function.Injective g := by
    intro a b hab
    have hr : reader a.1 a.2 = reader b.1 b.2 := congrArg Subtype.val hab
    have hb := hreads b.1 b.2
    rw [← hr] at hb
    exact Subtype.ext (hinj _ a.2 _ b.2 ((hreads a.1 a.2).unique hb))
  have hsurj : Function.Surjective g := Finite.surjective_of_injective hg
  have hpre : ∀ b ∈ pending, ∃ a, ∃ ha : a ∈ pending, reader a ha = b := by
    intro b hb
    obtain ⟨a, ha⟩ := hsurj ⟨b, hb⟩
    exact ⟨a.1, a.2, congrArg Subtype.val ha⟩
  refine ⟨fun a ha => ⟨reader a ha, hmem a ha, hreads a ha⟩, fun b hb => ?_, ?_⟩
  · obtain ⟨a, ha, rfl⟩ := hpre b hb
    exact ⟨a, ha, hreads a ha⟩
  · intro a ha b hb l hal hbl
    obtain ⟨a', ha', rfl⟩ := hpre a ha
    obtain ⟨b', hb', rfl⟩ := hpre b hb
    have hl : a'.target = b'.target :=
      ((hreads a' ha').unique hal).trans (hbl.unique (hreads b' hb'))
    obtain rfl := hinj a' ha' b' hb' hl
    rfl

/-! ### One cycle through a temporary -/

/-- A cycle is being followed: the value due at `last` is kept in `tmp`, the location
`hole` is read by nobody any more, and apart from these two the pending sources and the
pending targets still agree. -/
structure Hole (norm : L → V → V) (goal : L → V) (targets : Set L)
    (pending : Set (Assignment L V)) (hole last tmp : L) (σ : L → V) : Prop where
  /-- Apart from `last`, the state is on the way. -/
  progress : Progress norm goal (targets \ {last}) pending σ
  /-- The value due at `last` is in the temporary. -/
  kept : norm last (σ tmp) = goal last
  /-- Nobody reads the hole. -/
  unread : ∀ a ∈ pending, ¬ a.Reads hole
  /-- Every pending assignment reads a pending target or `last`. -/
  reads : ∀ b ∈ pending, b.Reads last ∨ ∃ a ∈ pending, b.Reads a.target
  /-- No location is read twice. -/
  once : ∀ a ∈ pending, ∀ b ∈ pending, ∀ l, a.Reads l → b.Reads l → a = b
  /-- The hole is a pending target or `last`. -/
  place : hole = last ∨ ∃ a ∈ pending, a.target = hole

namespace Hole

variable [DecidableEq L] {norm : L → V → V} {goal : L → V} {targets : Set L}
  {pending : Set (Assignment L V)} {σ : L → V} {hole last tmp : L}

/-- Saving the source of the first assignment of a cycle opens a hole there. -/
theorem opened (hnorm : ∀ t v, norm t (norm t v) = norm t v)
    (h : Progress norm goal targets pending σ) (hp : Permutes pending)
    {a : Assignment L V} (ha : a ∈ pending) (hr : a.Reads hole) (htmp : tmp ∉ targets) :
    Hole norm goal targets (pending \ {a}) hole a.target tmp
      (Function.update σ tmp (norm a.target (σ hole))) := by
  have hread : ∀ b ∈ pending, ¬ b.Reads tmp := by
    intro b hb hbt
    obtain ⟨c, hc, hbc⟩ := hp.reads b hb
    exact htmp (hbt.unique hbc ▸ h.subset c hc)
  have h' := h.overwrite (norm a.target (σ hole)) htmp hread
  constructor
  · refine ⟨fun b hb => ⟨h'.subset b hb.1, fun hba => hb.2 (h.inj b hb.1 a ha hba)⟩,
      fun b hb c hc => h'.inj b hb.1 c hc.1, fun b hb => h'.owed b hb.1, ?_⟩
    intro t ht hnp
    refine h'.done t ht.1 fun b hb hbt => ?_
    by_cases hba : b = a
    · exact ht.2 (by rw [← hbt, hba]; rfl)
    · exact hnp b ⟨hb, hba⟩ hbt
  · rw [Function.update_self, hnorm, ← hr.eval σ]
    exact h.owed a ha
  · exact fun b hb hbr => hb.2 (hp.once b hb.1 a ha _ hbr hr)
  · intro b hb
    obtain ⟨c, hc, hbc⟩ := hp.reads b hb.1
    by_cases hca : c = a
    · exact Or.inl (hca ▸ hbc)
    · exact Or.inr ⟨c, ⟨hc, hca⟩, hbc⟩
  · exact fun b hb c hc => hp.once b hb.1 c hc.1
  · obtain ⟨c, hc, hac⟩ := hp.reads a ha
    by_cases hca : c = a
    · exact Or.inl (hr.unique (hca ▸ hac))
    · exact Or.inr ⟨c, ⟨hc, hca⟩, hac.unique hr⟩

/-- Filling the hole moves it to the source of the assignment that fills it. -/
theorem assign (hnorm : ∀ t v, norm t (norm t v) = norm t v) (htmp : tmp ∉ targets)
    (h : Hole norm goal targets pending hole last tmp σ) {a : Assignment L V}
    (ha : a ∈ pending) (hat : a.target = hole) {next : L} (hr : a.Reads next) :
    Hole norm goal targets (pending \ {a}) next last tmp
      (Function.update σ a.target (norm a.target (a.source.eval σ))) := by
  constructor
  · exact h.progress.assign hnorm ha fun b hb _ => hat ▸ h.unread b hb
  · rw [Function.update_of_ne]
    · exact h.kept
    · exact fun he => htmp (he ▸ (h.progress.subset a ha).1)
  · exact fun b hb hbr => hb.2 (h.once b hb.1 a ha _ hbr hr)
  · intro b hb
    obtain hl | ⟨c, hc, hbc⟩ := h.reads b hb.1
    · exact Or.inl hl
    · by_cases hca : c = a
      · exact absurd (hat ▸ hca ▸ hbc) (h.unread b hb.1)
      · exact Or.inr ⟨c, ⟨hc, hca⟩, hbc⟩
  · exact fun b hb c hc => h.once b hb.1 c hc.1
  · obtain hl | ⟨c, hc, hac⟩ := h.reads a ha
    · exact Or.inl (hr.unique hl)
    · by_cases hca : c = a
      · exact absurd (hat ▸ hca ▸ hac) (h.unread a ha)
      · exact Or.inr ⟨c, ⟨hc, hca⟩, hac.unique hr⟩

/-- When nothing pending is assigned to the hole, the hole is `last`, and the temporary
completes the cycle. -/
theorem close (hnorm : ∀ t v, norm t (norm t v) = norm t v)
    (h : Hole norm goal targets pending hole last tmp σ)
    (hend : ∀ a ∈ pending, a.target ≠ hole) :
    Progress norm goal targets pending (Function.update σ last (norm last (σ tmp))) := by
  have hhole : hole = last := h.place.resolve_right fun ⟨a, ha, he⟩ => hend a ha he
  have hunread : ∀ a ∈ pending, ¬ a.Reads last := hhole ▸ h.unread
  constructor
  · exact fun a ha => (h.progress.subset a ha).1
  · exact h.progress.inj
  · intro a ha
    rw [Assignment.eval_update (hunread a ha)]
    exact h.progress.owed a ha
  · intro t ht hnp
    by_cases htl : t = last
    · subst htl
      rw [Function.update_self, hnorm]
      exact h.kept
    · rw [Function.update_of_ne htl]
      exact h.progress.done t ⟨ht, htl⟩ hnp

end Hole

/-! ### One cycle through exchanges -/

/-- Exchange the contents of two locations. -/
def exchange [DecidableEq L] (σ : L → V) (l l' : L) : L → V :=
  Function.update (Function.update σ l (σ l')) l' (σ l)

/-- An exchange touches its two locations only. -/
theorem exchange_of_ne [DecidableEq L] {σ : L → V} {l l' x : L} (h : x ≠ l) (h' : x ≠ l') :
    exchange σ l l' x = σ x := by
  rw [exchange, Function.update_of_ne h', Function.update_of_ne h]

/-- The second location of an exchange gets the content of the first. -/
theorem exchange_right [DecidableEq L] (σ : L → V) (l l' : L) :
    exchange σ l l' l' = σ l := by
  rw [exchange, Function.update_self]

/-- The first location of an exchange gets the content of the second. -/
theorem exchange_left [DecidableEq L] {σ : L → V} {l l' : L} (h : l ≠ l') :
    exchange σ l l' l = σ l' := by
  rw [exchange, Function.update_of_ne h, Function.update_self]

/-- A cycle that started at the target `first` is being rotated: the content `first` had
is now at `hole`, where the assignment reading `first` finds it. -/
structure Rotation (norm : L → V → V) (goal : L → V) (targets : Set L)
    (pending : Set (Assignment L V)) (hole first : L) (σ : L → V) : Prop where
  /-- Only targets are assigned. -/
  subset : ∀ a ∈ pending, a.target ∈ targets
  /-- The pending assignments have different targets. -/
  inj : ∀ a ∈ pending, ∀ b ∈ pending, a.target = b.target → a = b
  /-- A location other than `first` provides the goal of the assignment reading it. -/
  owed : ∀ a ∈ pending, ∀ l, a.Reads l → l ≠ first → norm a.target (σ l) = goal a.target
  /-- The hole provides the goal of the assignment reading `first`. -/
  moved : ∀ a ∈ pending, a.Reads first → norm a.target (σ hole) = goal a.target
  /-- Every target that is not pending has its goal. -/
  done : ∀ t ∈ targets, (∀ a ∈ pending, a.target ≠ t) → norm t (σ t) = goal t
  /-- Every pending assignment reads a pending target or `first`. -/
  reads : ∀ b ∈ pending, b.Reads first ∨ ∃ a ∈ pending, b.Reads a.target
  /-- Every pending target but the hole is read. -/
  read : ∀ a ∈ pending, a.target ≠ hole → ∃ b ∈ pending, b.Reads a.target
  /-- No location is read twice. -/
  once : ∀ a ∈ pending, ∀ b ∈ pending, ∀ l, a.Reads l → b.Reads l → a = b
  /-- Once the hole has left `first`, nobody reads the hole. -/
  unread : hole ≠ first → ∀ a ∈ pending, ¬ a.Reads hole
  /-- Once the hole has left `first`, `first` is done. -/
  settled : hole ≠ first → ∀ a ∈ pending, a.target ≠ first

namespace Rotation

variable [DecidableEq L] {norm : L → V → V} {goal : L → V} {targets : Set L}
  {pending : Set (Assignment L V)} {σ : L → V} {hole first : L}

omit [DecidableEq L] in
/-- A rotation starts at any pending target. -/
theorem start (h : Progress norm goal targets pending σ) (hp : Permutes pending) (first : L) :
    Rotation norm goal targets pending first first σ where
  subset := h.subset
  inj := h.inj
  owed a ha l hl _ := by rw [← hl.eval σ]; exact h.owed a ha
  moved a ha hl := by rw [← hl.eval σ]; exact h.owed a ha
  done := h.done
  reads b hb := Or.inr (hp.reads b hb)
  read a ha _ := hp.read a ha
  once := hp.once
  unread hne := absurd rfl hne
  settled hne := absurd rfl hne

/-- **One exchange.** Exchanging the hole with the source of the assignment to the hole
completes that assignment and moves the hole to its source. -/
theorem swap (h : Rotation norm goal targets pending hole first σ) {a : Assignment L V}
    (ha : a ∈ pending) (hat : a.target = hole) {next : L} (hr : a.Reads next)
    (hnf : next ≠ first) (hnh : next ≠ hole) :
    Rotation norm goal targets (pending \ {a}) next first (exchange σ hole next) := by
  obtain ⟨c, hc, hac⟩ := (h.reads a ha).resolve_left fun hf => hnf (hr.unique hf)
  have hcn : c.target = next := hac.unique hr
  have hca : c ≠ a := fun he => hnh (by rw [← hcn, he, hat])
  have hothers : ∀ b ∈ pending \ {a}, ¬ b.Reads next := fun b hb hbr =>
    hb.2 (h.once b hb.1 a ha _ hbr hr)
  constructor
  · exact fun b hb => h.subset b hb.1
  · exact fun b hb d hd => h.inj b hb.1 d hd.1
  · intro b hb l hbl hlf
    have hln : l ≠ next := fun he => hothers b hb (he ▸ hbl)
    have hlh : l ≠ hole := fun he => h.unread (he ▸ hlf) b hb.1 (he ▸ hbl)
    rw [exchange_of_ne hlh hln]
    exact h.owed b hb.1 l hbl hlf
  · intro b hb hbf
    rw [exchange_right]
    exact h.moved b hb.1 hbf
  · intro t ht hnp
    by_cases hth : t = hole
    · subst hth
      rw [exchange_left hnh.symm, ← hat]
      exact h.owed a ha next hr hnf
    · have htn : t ≠ next := fun he => hnp c ⟨hc, hca⟩ (hcn.trans he.symm)
      rw [exchange_of_ne hth htn]
      refine h.done t ht fun b hb hbt => ?_
      by_cases hba : b = a
      · exact hth (by rw [← hbt, hba, hat])
      · exact hnp b ⟨hb, hba⟩ hbt
  · intro b hb
    obtain hf | ⟨d, hd, hbd⟩ := h.reads b hb.1
    · exact Or.inl hf
    · by_cases hda : d = a
      · rw [hda, hat] at hbd
        by_cases hhf : hole = first
        · exact Or.inl (hhf ▸ hbd)
        · exact absurd hbd (h.unread hhf b hb.1)
      · exact Or.inr ⟨d, ⟨hd, hda⟩, hbd⟩
  · intro d hd hdn
    have hdh : d.target ≠ hole := fun he => hd.2 (h.inj d hd.1 a ha (he.trans hat.symm))
    obtain ⟨b, hb, hbd⟩ := h.read d hd.1 hdh
    exact ⟨b, ⟨hb, fun hba => hdn (hbd.unique (hba ▸ hr))⟩, hbd⟩
  · exact fun b hb d hd => h.once b hb.1 d hd.1
  · exact fun _ => hothers
  · intro _ b hb hbf
    by_cases hhf : hole = first
    · exact hb.2 (h.inj b hb.1 a ha (by rw [hbf, hat, hhf]))
    · exact h.settled hhf b hb.1 hbf

/-- **The last assignment of a cycle** reads a location that is not pending any more; its
target, the hole, already holds its value, and the other cycles are untouched. -/
theorem drop (h : Rotation norm goal targets pending hole first σ) {a : Assignment L V}
    (ha : a ∈ pending) (hat : a.target = hole) (hne : hole ≠ first)
    (hend : ∀ b ∈ pending, ¬ a.Reads b.target) :
    a.Reads first ∧ norm hole (σ hole) = goal hole ∧
      Progress norm goal targets (pending \ {a}) σ ∧ Permutes (pending \ {a}) := by
  have hr : a.Reads first :=
    (h.reads a ha).resolve_right fun ⟨b, hb, hab⟩ => hend b hb hab
  have hgoal : norm hole (σ hole) = goal hole := by
    have hm := h.moved a ha hr
    rwa [hat] at hm
  have hreads : ∀ b ∈ pending \ {a}, ∃ c ∈ pending \ {a}, b.Reads c.target := by
    intro b hb
    obtain ⟨c, hc, hbc⟩ := (h.reads b hb.1).resolve_left fun hf =>
      hb.2 (h.once b hb.1 a ha _ hf hr)
    refine ⟨c, ⟨hc, fun hca => h.unread hne b hb.1 ?_⟩, hbc⟩
    rw [← hat, ← Set.mem_singleton_iff.mp hca]
    exact hbc
  refine ⟨hr, hgoal, ⟨fun b hb => h.subset b hb.1, fun b hb c hc => h.inj b hb.1 c hc.1, ?_, ?_⟩,
    ?_, hreads, fun b hb c hc => h.once b hb.1 c hc.1⟩
  · intro b hb
    obtain ⟨c, hc, hbc⟩ := hreads b hb
    have hcf : c.target ≠ first := h.settled hne c hc.1
    rw [hbc.eval σ]
    exact h.owed b hb.1 _ hbc hcf
  · intro t ht hnp
    by_cases hth : t = hole
    · rw [hth, hgoal]
    · refine h.done t ht fun b hb hbt => ?_
      by_cases hba : b = a
      · exact hth (by rw [← hbt, hba, hat])
      · exact hnp b ⟨hb, hba⟩ hbt
  · intro b hb
    have hbh : b.target ≠ hole := fun he => hb.2 (h.inj b hb.1 a ha (he.trans hat.symm))
    obtain ⟨c, hc, hcb⟩ := h.read b hb.1 hbh
    refine ⟨c, ⟨hc, fun hca => h.settled hne b hb.1 ?_⟩, hcb⟩
    rw [Set.mem_singleton_iff.mp hca] at hcb
    exact hcb.unique hr

end Rotation

end ParallelAssignment

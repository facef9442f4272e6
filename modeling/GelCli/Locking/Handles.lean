import GelCli.Foundation.LockTable
import GelCli.Foundation.Transition
import Mathlib.Logic.Function.Basic

/-!
# Lock handles of one process

The locks that `src/locking.rs` hands out for one path within a process: the first handle
owns the locked file, and while its entry stands in `CURRENT_LOCKS` every other one is a
`NoLock`, a mark that locks nothing. Handles are cloned, downgraded and dropped in any
order.
-/

namespace GelCli.Locking.Handles

open GelCli.Foundation

inductive LockInner where
  | noLock (type : LockType)
  | «local» (type : LockType)
deriving DecidableEq, Repr

/-- A handle is the number of its `LockInner`, which its clones share. `file` is how the
system has locked the file for the process, `wanted` what a lock was asked for or was
downgraded to. -/
structure State where
  current : Option LockType
  fresh : Nat
  inner : Nat → LockInner
  handles : List Nat
  file : Option LockType
  wanted : Nat → LockType

def State.add (s : State) (inner : LockInner) (type : LockType) : State :=
  { s with
    fresh := s.fresh + 1
    inner := Function.update s.inner s.fresh inner
    handles := s.fresh :: s.handles
    wanted := Function.update s.wanted s.fresh type }

inductive Event where
  /-- The system grants the lock, or it does not within the timeout. -/
  | acquire (type : LockType) (granted : Bool)
  | clone (handle : Nat)
  | downgrade (handle : Nat) (done : Bool)
  | drop (handle : Nat)
deriving DecidableEq, Repr

section Steps

variable (inHook : Bool) (s : State)

/-- `lock_instance_sync`. In a hook a shared lock is a mark, and enters the table too. -/
def acquire (type : LockType) (granted : Bool) : State :=
  match s.current with
  | some _ => s.add (.noLock type) type
  | none =>
      if type = .shared ∧ inHook then { s.add (.noLock type) type with current := some type }
      else if granted then
        { s.add (.local type) type with current := some type, file := some type }
      else s

/-- The table keeps the type it has. -/
def downgrade (handle : Nat) (done : Bool) : State :=
  match s.inner handle with
  | .noLock _ => { s with wanted := Function.update s.wanted handle .shared }
  | .local _ =>
      if done then
        { s with
          inner := Function.update s.inner handle (.local .shared)
          file := some .shared
          wanted := Function.update s.wanted handle .shared }
      else s

/-- The `LockInner` is dropped with its last handle; an upgrade on the way out changes
nothing, for the file is closed then. -/
def dropHandle (handle : Nat) : State :=
  let rest := s.handles.erase handle
  if handle ∈ rest then { s with handles := rest }
  else
    match s.inner handle with
    | .noLock _ => { s with handles := rest }
    | .local _ => { s with handles := rest, current := none, file := none }

def next : Event → Option State
  | .acquire type granted => some (acquire inHook s type granted)
  | .clone handle =>
      if handle ∈ s.handles then some { s with handles := handle :: s.handles } else none
  | .downgrade handle done => if handle ∈ s.handles then some (downgrade s handle done) else none
  | .drop handle => if handle ∈ s.handles then some (dropHandle s handle) else none

end Steps

structure Initial (s : State) : Prop where
  current : s.current = none
  handles : s.handles = []
  file : s.file = none

/-- A process, in a hook or not. -/
def process (inHook : Bool) : System State Event where
  Initial := Initial
  next := next inHook

/-- A lock held as `mode` is at least as strong as one of `type`. -/
def Covers (mode type : LockType) : Prop := mode = .exclusive ∨ type = .shared

/-- While a handle lives that was not returned in a hook, the file is locked as it asks for,
and no longer than the last handle lives. -/
structure Held (inHook : Bool) (s : State) : Prop where
  covered : inHook = false → ∀ a ∈ s.handles, ∃ mode, s.file = some mode ∧ Covers mode (s.wanted a)
  released : s.handles = [] → s.file = none

/-- A new lock asks for no more than the file is locked for, the owner is downgraded when
the others want no more than that, and it is dropped last. -/
def OwnerCovers (inHook : Bool) (s : State) (e : Event) : Prop :=
  inHook = false →
    match e with
    | .acquire type _ => ∀ mode, s.file = some mode → Covers mode type
    | .clone _ => True
    | .downgrade a done => done = true → ∀ type, s.inner a = .local type →
        ∀ b ∈ s.handles, b ≠ a → s.wanted b = .shared
    | .drop a => ∀ type, s.inner a = .local type → a ∉ s.handles.erase a → s.handles.erase a = []

/-! ## The invariant -/

/-- One live lock at most owns the file, and the table knows of it. -/
structure Sound (inHook : Bool) (s : State) : Prop where
  handle_lt : ∀ a ∈ s.handles, a < s.fresh
  owner : ∀ a ∈ s.handles, ∀ type, s.inner a = .local type →
    s.file = some type ∧ s.wanted a = type ∧ s.current.isSome
  unique : ∀ a ∈ s.handles, ∀ b ∈ s.handles, ∀ type type', s.inner a = .local type →
    s.inner b = .local type' → b = a
  locked : ∀ type, s.file = some type → ∃ a ∈ s.handles, s.inner a = .local type
  current : inHook = false → s.current.isSome → s.file.isSome
  covered : inHook = false → ∀ a ∈ s.handles, ∃ mode, s.file = some mode ∧ Covers mode (s.wanted a)

variable {inHook : Bool} {s t : State}

theorem Sound.held (h : Sound inHook s) : Held inHook s := by
  refine ⟨h.covered, fun hnil => ?_⟩
  cases hfile : s.file with
  | none => rfl
  | some type =>
      obtain ⟨a, ha, -⟩ := h.locked type hfile
      rw [hnil] at ha
      cases ha

theorem sound_of_initial (h : Initial s) : Sound inHook s := by
  have hnone : ∀ a, a ∉ s.handles := by
    intro a ha
    rw [h.handles] at ha
    cases ha
  refine ⟨fun a ha => absurd ha (hnone a), fun a ha => absurd ha (hnone a),
    fun a ha => absurd ha (hnone a), fun type hfile => ?_, fun _ hcurrent => ?_,
    fun _ a ha => absurd ha (hnone a)⟩
  · rw [h.file] at hfile
    cases hfile
  · rw [h.current] at hcurrent
    cases hcurrent

theorem covers_refl (type : LockType) : Covers type type := by
  cases type with
  | shared => exact .inr rfl
  | exclusive => exact .inl rfl

section Step

variable {a : Nat} {type : LockType}

theorem State.add_inner_self (inner : LockInner) :
    (s.add inner type).inner s.fresh = inner := Function.update_self ..

theorem State.add_wanted_self (inner : LockInner) :
    (s.add inner type).wanted s.fresh = type := Function.update_self ..

theorem Sound.add_inner (h : Sound inHook s) (inner : LockInner) (ha : a ∈ s.handles) :
    (s.add inner type).inner a = s.inner a :=
  Function.update_of_ne (Nat.ne_of_lt (h.handle_lt a ha)) _ _

theorem Sound.add_wanted (h : Sound inHook s) (inner : LockInner) (ha : a ∈ s.handles) :
    (s.add inner type).wanted a = s.wanted a :=
  Function.update_of_ne (Nat.ne_of_lt (h.handle_lt a ha)) _ _

/-- A mark is added. -/
theorem Sound.mark (h : Sound inHook s) {current : Option LockType}
    (hcurrent : s.current.isSome → current.isSome)
    (hfile : inHook = false → current.isSome → s.file.isSome)
    (hcovered : inHook = false → ∃ mode, s.file = some mode ∧ Covers mode type) :
    Sound inHook { s.add (.noLock type) type with current := current } := by
  have hmark : ∀ b ∈ s.fresh :: s.handles, ∀ type',
      (s.add (.noLock type) type).inner b = .local type' →
        b ∈ s.handles ∧ s.inner b = .local type' := by
    intro b hb type' hinner
    rcases List.mem_cons.mp hb with rfl | hb
    · rw [State.add_inner_self] at hinner
      cases hinner
    · rw [h.add_inner _ hb] at hinner
      exact ⟨hb, hinner⟩
  constructor
  · intro b hb
    rcases List.mem_cons.mp hb with rfl | hb
    · exact Nat.lt_succ_self _
    · exact Nat.lt_succ_of_lt (h.handle_lt b hb)
  · intro b hb type' hinner
    obtain ⟨hb, hold⟩ := hmark b hb type' hinner
    obtain ⟨hlocked, hwanted, hsome⟩ := h.owner b hb type' hold
    exact ⟨hlocked, (h.add_wanted (.noLock type) hb).trans hwanted, hcurrent hsome⟩
  · intro b hb c hc type' type'' hinner hinner'
    obtain ⟨hb, hold⟩ := hmark b hb type' hinner
    obtain ⟨hc, hold'⟩ := hmark c hc type'' hinner'
    exact h.unique b hb c hc type' type'' hold hold'
  · intro type' hlocked
    obtain ⟨b, hb, hinner⟩ := h.locked type' hlocked
    have hkept : (s.add (.noLock type) type).inner b = s.inner b := h.add_inner _ hb
    exact ⟨b, List.mem_cons_of_mem _ hb, hkept.trans hinner⟩
  · exact hfile
  · intro hhook b hb
    rcases List.mem_cons.mp hb with rfl | hb
    · obtain ⟨mode, hmode, hcovers⟩ := hcovered hhook
      exact ⟨mode, hmode, by rwa [State.add_wanted_self]⟩
    · obtain ⟨mode, hmode, hcovers⟩ := h.covered hhook b hb
      exact ⟨mode, hmode, by rwa [h.add_wanted _ hb]⟩

/-- The table is empty: no live lock owns a file. -/
theorem Sound.no_owner (h : Sound inHook s) (hcurrent : s.current = none) (ha : a ∈ s.handles) :
    s.inner a ≠ .local type := by
  intro hinner
  have hsome := (h.owner a ha type hinner).2.2
  rw [hcurrent] at hsome
  cases hsome

theorem Sound.file_eq_none (h : Sound inHook s) (hcurrent : s.current = none) : s.file = none := by
  cases hfile : s.file with
  | none => rfl
  | some type =>
      obtain ⟨a, ha, hinner⟩ := h.locked type hfile
      exact absurd hinner (h.no_owner hcurrent ha)

theorem Sound.acquire {granted : Bool} (h : Sound inHook s)
    (hguard : OwnerCovers inHook s (.acquire type granted)) :
    Sound inHook (acquire inHook s type granted) := by
  rw [Handles.acquire]
  split
  · next held hcurrent =>
    have hsome : s.current.isSome := by rw [hcurrent]; rfl
    refine h.mark id (fun hhook _ => h.current hhook hsome) fun hhook => ?_
    obtain ⟨mode, hmode⟩ := Option.isSome_iff_exists.mp (h.current hhook hsome)
    exact ⟨mode, hmode, hguard hhook mode hmode⟩
  · next hcurrent =>
    split
    · next hmark =>
      have hhook : inHook ≠ false := by simp [hmark.2]
      exact h.mark (fun _ => rfl) (fun heq => absurd heq hhook) fun heq => absurd heq hhook
    · split
      · have hnew : ∀ b ∈ s.fresh :: s.handles, ∀ type',
            (s.add (.local type) type).inner b = .local type' → b = s.fresh ∧ type' = type := by
          intro b hb type' hinner
          rcases List.mem_cons.mp hb with rfl | hb
          · rw [State.add_inner_self] at hinner
            cases hinner
            exact ⟨rfl, rfl⟩
          · rw [h.add_inner _ hb] at hinner
            exact absurd hinner (h.no_owner hcurrent hb)
        constructor
        · intro b hb
          rcases List.mem_cons.mp hb with rfl | hb
          · exact Nat.lt_succ_self _
          · exact Nat.lt_succ_of_lt (h.handle_lt b hb)
        · intro b hb type' hinner
          obtain ⟨rfl, rfl⟩ := hnew b hb type' hinner
          exact ⟨rfl, Function.update_self .., rfl⟩
        · intro b hb c hc type' type'' hinner hinner'
          rw [(hnew b hb type' hinner).1, (hnew c hc type'' hinner').1]
        · intro type' hlocked
          cases hlocked
          exact ⟨s.fresh, List.mem_cons_self, Function.update_self ..⟩
        · exact fun _ _ => rfl
        · intro hhook b hb
          rcases List.mem_cons.mp hb with rfl | hb
          · refine ⟨type, rfl, ?_⟩
            show Covers type ((s.add (.local type) type).wanted s.fresh)
            rw [State.add_wanted_self]
            exact covers_refl type
          · -- an older handle would hold the file already
            obtain ⟨mode, hmode, -⟩ := h.covered hhook b hb
            rw [h.file_eq_none hcurrent] at hmode
            cases hmode
      · exact h

theorem Sound.clone (h : Sound inHook s) (ha : a ∈ s.handles) :
    Sound inHook { s with handles := a :: s.handles } := by
  have hold : ∀ b ∈ a :: s.handles, b ∈ s.handles := by
    intro b hb
    rcases List.mem_cons.mp hb with rfl | hb
    · exact ha
    · exact hb
  constructor
  · exact fun b hb => h.handle_lt b (hold b hb)
  · exact fun b hb => h.owner b (hold b hb)
  · exact fun b hb c hc => h.unique b (hold b hb) c (hold c hc)
  · intro type hlocked
    obtain ⟨b, hb, hinner⟩ := h.locked type hlocked
    exact ⟨b, List.mem_cons_of_mem _ hb, hinner⟩
  · exact h.current
  · exact fun hhook b hb => h.covered hhook b (hold b hb)

theorem covers_shared (mode : LockType) : Covers mode .shared := .inr rfl

theorem Sound.downgrade {done : Bool} (h : Sound inHook s) (ha : a ∈ s.handles)
    (hguard : OwnerCovers inHook s (.downgrade a done)) :
    Sound inHook (downgrade s a done) := by
  rw [Handles.downgrade]
  split
  · next type hmark =>
    refine ⟨h.handle_lt, fun b hb type' hinner => ?_, h.unique, h.locked, h.current,
      fun hhook b hb => ?_⟩
    · have hne : b ≠ a := by
        rintro rfl
        rw [hmark] at hinner
        cases hinner
      obtain ⟨hlocked, hwanted, hsome⟩ := h.owner b hb type' hinner
      exact ⟨hlocked, (Function.update_of_ne hne _ _).trans hwanted, hsome⟩
    · obtain ⟨mode, hmode, hcovers⟩ := h.covered hhook b hb
      refine ⟨mode, hmode, ?_⟩
      rcases eq_or_ne b a with rfl | hne
      · show Covers mode (Function.update s.wanted b .shared b)
        rw [Function.update_self]
        exact covers_shared mode
      · show Covers mode (Function.update s.wanted a .shared b)
        rwa [Function.update_of_ne hne]
  · next type howner =>
    split
    · next hdone =>
      have honly : ∀ b ∈ s.handles, ∀ type',
          Function.update s.inner a (.local .shared) b = .local type' → b = a ∧ type' = .shared := by
        intro b hb type' hinner
        rcases eq_or_ne b a with rfl | hne
        · rw [Function.update_self] at hinner
          cases hinner
          exact ⟨rfl, rfl⟩
        · rw [Function.update_of_ne hne] at hinner
          exact absurd (h.unique a ha b hb type type' howner hinner) hne
      constructor
      · exact h.handle_lt
      · intro b hb type' hinner
        obtain ⟨rfl, rfl⟩ := honly b hb type' hinner
        exact ⟨rfl, Function.update_self .., (h.owner b hb type howner).2.2⟩
      · intro b hb c hc type' type'' hinner hinner'
        rw [(honly b hb type' hinner).1, (honly c hc type'' hinner').1]
      · intro type' hlocked
        cases hlocked
        exact ⟨a, ha, Function.update_self ..⟩
      · exact fun _ _ => rfl
      · intro hhook b hb
        refine ⟨.shared, rfl, .inr ?_⟩
        rcases eq_or_ne b a with rfl | hne
        · exact Function.update_self ..
        · exact (Function.update_of_ne hne _ _).trans (hguard hhook hdone type howner b hb hne)
    · exact h

/-- Some handle is dropped, and the owner of the file lives on. -/
theorem Sound.drop_rest (h : Sound inHook s) {rest : List Nat} (hrest : ∀ b ∈ rest, b ∈ s.handles)
    (howner : ∀ b ∈ s.handles, ∀ type, s.inner b = .local type → b ∈ rest) :
    Sound inHook { s with handles := rest } := by
  constructor
  · exact fun b hb => h.handle_lt b (hrest b hb)
  · exact fun b hb => h.owner b (hrest b hb)
  · exact fun b hb c hc => h.unique b (hrest b hb) c (hrest c hc)
  · intro type hlocked
    obtain ⟨b, hb, hinner⟩ := h.locked type hlocked
    exact ⟨b, howner b hb type hinner, hinner⟩
  · exact h.current
  · exact fun hhook b hb => h.covered hhook b (hrest b hb)

theorem Sound.drop (h : Sound inHook s) (ha : a ∈ s.handles)
    (hguard : OwnerCovers inHook s (.drop a)) : Sound inHook (dropHandle s a) := by
  have hrest : ∀ b ∈ s.handles.erase a, b ∈ s.handles := fun b hb => List.mem_of_mem_erase hb
  have hother : ∀ b ∈ s.handles, b ≠ a → b ∈ s.handles.erase a := fun b hb hne =>
    (List.mem_erase_of_ne hne).mpr hb
  rw [dropHandle]
  split
  · next hmore =>
    refine h.drop_rest hrest fun b hb type _ => ?_
    rcases eq_or_ne b a with rfl | hne
    · exact hmore
    · exact hother b hb hne
  · next hlast =>
    split
    · next type hmark =>
      refine h.drop_rest hrest fun b hb type' hinner => hother b hb ?_
      rintro rfl
      rw [hmark] at hinner
      cases hinner
    · next type howner =>
      have hno : ∀ b ∈ s.handles.erase a, ∀ type', s.inner b ≠ .local type' := by
        intro b hb type' hinner
        obtain rfl := h.unique a ha b (hrest b hb) type type' howner hinner
        exact hlast hb
      constructor
      · exact fun b hb => h.handle_lt b (hrest b hb)
      · exact fun b hb type' hinner => absurd hinner (hno b hb type')
      · exact fun b hb _ _ type' _ hinner _ => absurd hinner (hno b hb type')
      · intro type' hlocked
        cases hlocked
      · intro _ hsome
        cases hsome
      · intro hhook b hb
        have hnil := hguard hhook type howner hlast
        have hb : b ∈ s.handles.erase a := hb
        rw [hnil] at hb
        cases hb

theorem Sound.next {e : Event} (h : Sound inHook s) (hguard : OwnerCovers inHook s e)
    (hstep : next inHook s e = some t) : Sound inHook t := by
  cases e with
  | acquire type granted =>
      cases hstep
      exact h.acquire hguard
  | clone a =>
      obtain ⟨ha, hstep⟩ := Option.ite_none_right_eq_some.mp hstep
      cases hstep
      exact h.clone ha
  | downgrade a done =>
      obtain ⟨ha, hstep⟩ := Option.ite_none_right_eq_some.mp hstep
      cases hstep
      exact h.downgrade ha hguard
  | drop a =>
      obtain ⟨ha, hstep⟩ := Option.ite_none_right_eq_some.mp hstep
      cases hstep
      exact h.drop ha hguard

/-! ## Where the owner does not cover the others -/

theorem not_held_acquire {granted : Bool} (h : Sound false s)
    (hguard : ¬ OwnerCovers false s (.acquire type granted)) :
    ¬ Held false (acquire false s type granted) := by
  intro hheld
  refine hguard fun _ mode hmode => ?_
  obtain ⟨a, ha, hinner⟩ := h.locked mode hmode
  obtain ⟨current, hcurrent⟩ := Option.isSome_iff_exists.mp (h.owner a ha mode hinner).2.2
  have hmark : acquire false s type granted = s.add (.noLock type) type := by
    rw [Handles.acquire, hcurrent]
  rw [hmark] at hheld
  obtain ⟨mode', hmode', hcovers⟩ := hheld.covered rfl s.fresh List.mem_cons_self
  rw [State.add_wanted_self] at hcovers
  obtain rfl := Option.some.inj (hmode.symm.trans hmode')
  exact hcovers

theorem not_held_downgrade {done : Bool}
    (hguard : ¬ OwnerCovers false s (.downgrade a done)) : ¬ Held false (downgrade s a done) := by
  intro hheld
  refine hguard fun _ hdone type howner b hb hne => ?_
  have hshared : downgrade s a done =
      { s with
        inner := Function.update s.inner a (.local .shared)
        file := some .shared
        wanted := Function.update s.wanted a .shared } := by
    rw [Handles.downgrade, howner, hdone]
    rfl
  rw [hshared] at hheld
  obtain ⟨mode, hmode, hcovers⟩ := hheld.covered rfl b hb
  obtain rfl := Option.some.inj hmode
  rcases hcovers with hcovers | hcovers
  · cases hcovers
  · exact (Function.update_of_ne hne _ _).symm.trans hcovers

theorem not_held_drop (hguard : ¬ OwnerCovers false s (.drop a)) :
    ¬ Held false (dropHandle s a) := by
  intro hheld
  refine hguard fun _ type howner hlast => ?_
  have hclosed : dropHandle s a =
      { s with handles := s.handles.erase a, current := none, file := none } := by
    rw [dropHandle]
    simp only [howner, hlast, if_false]
  rw [hclosed] at hheld
  refine List.eq_nil_iff_forall_not_mem.mpr fun b hb => ?_
  obtain ⟨mode, hmode, -⟩ := hheld.covered rfl b hb
  cases hmode

theorem not_held_next {e : Event} (h : Sound inHook s) (hguard : ¬ OwnerCovers inHook s e)
    (hstep : Handles.next inHook s e = some t) : ¬ Held inHook t := by
  cases inHook with
  | true => exact absurd (fun hhook => by cases hhook) hguard
  | false =>
      cases e with
      | acquire type granted =>
          cases hstep
          exact not_held_acquire h hguard
      | clone a => exact absurd (fun _ => trivial) hguard
      | downgrade a done =>
          obtain ⟨-, hstep⟩ := Option.ite_none_right_eq_some.mp hstep
          cases hstep
          exact not_held_downgrade hguard
      | drop a =>
          obtain ⟨-, hstep⟩ := Option.ite_none_right_eq_some.mp hstep
          cases hstep
          exact not_held_drop hguard

end Step

/-- **A handle means a lock in every state of a run** if and only if no lock asks for more
than the file is locked for, the owner is downgraded only when the others want no more, and
it is dropped last. -/
theorem held_iff_ownerCovers {events : List Event} (hinitial : Initial s)
    (hrun : (process inHook).run s events = some t) :
    (∀ before u, before <+: events → (process inHook).run s before = some u → Held inHook u) ↔
      (process inHook).Along (OwnerCovers inHook) s events :=
  System.forall_states_iff_along (fun _ h => Sound.held h)
    (fun _ _ _ h hguard hstep => h.next hguard hstep)
    (fun _ _ _ h hguard hstep => not_held_next h hguard hstep) (sound_of_initial hinitial) hrun

/-! ## A mark that outlives the owner -/

def unlocked : State where
  current := none
  fresh := 0
  inner _ := .noLock .shared
  handles := []
  file := none
  wanted _ := .shared

theorem unlocked_initial : Initial unlocked := ⟨rfl, rfl, rfl⟩

/-- A mark is taken and dropped while the owner lives, which is downgraded and cloned. -/
def nested : List Event :=
  [.acquire .exclusive true, .acquire .shared true, .downgrade 0 true, .clone 0, .drop 1, .drop 0,
    .drop 0]

theorem along_nested : (process false).Along (OwnerCovers false) unlocked nested := by
  refine ⟨fun _ mode hmode => (by cases hmode), _, rfl, fun _ mode _ => covers_shared mode, _, rfl,
    fun _ _ type _ b hb hne => ?_, _, rfl, fun _ => trivial, _, rfl,
    fun _ type hinner => (by cases hinner), _, rfl, fun _ type _ hlast => ?_, _, rfl,
    fun _ type _ _ => rfl, _, rfl, trivial⟩
  · rcases List.mem_cons.mp hb with rfl | hb
    · rfl
    · exact absurd (List.mem_singleton.mp hb) hne
  · exact absurd (by decide) hlast

theorem held_iff_ownerCovers_nested : ∃ t, (process false).run unlocked nested = some t ∧
    ∀ before u, before <+: nested → (process false).run unlocked before = some u → Held false u :=
  ⟨_, rfl, (held_iff_ownerCovers unlocked_initial rfl).mpr along_nested⟩

/-- Two shared locks of one path: with the first handle goes the lock of the file. -/
theorem not_held_markLeft :
    ¬ ∀ events u, (process false).run unlocked events = some u → Held false u := by
  intro hclaim
  have hheld := hclaim [.acquire .shared true, .acquire .shared true, .drop 0] _ rfl
  obtain ⟨mode, hmode, -⟩ := hheld.covered rfl 1 List.mem_cons_self
  cases hmode

end GelCli.Locking.Handles

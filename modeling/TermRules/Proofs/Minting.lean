/-
TermRules.Proofs.Minting — no two variables are minted alike.

A minted variable is the scope of its factory and the number of the call. Scopes
come from the one counter that all factories share, and the calls are counted by
each factory on its own, so that no thread has to ask another before it mints.
`run_fresh` says what that gives in every interleaving of requests, as long as
neither counter has gone all the way round: no two calls mint the same variable,
nor two that are displayed alike, and each factory counts its own calls.

The default factory of a thread comes to be before the first variable is minted in
it, and other threads may get in between. That is a request of its own here,
`Request.prepare`; by `freshOn_prepare` it makes no difference to the thread.

A `Minting` keeps beside the mint what was opened and minted so far, and `Sound`
reads both counters off these lists. It needs no bound on either of them.
-/
import Mathlib.Algebra.Group.Nat.Defs
import Mathlib.Data.List.Nodup
import Mathlib.Data.List.Range
import Mathlib.Logic.Function.Basic
import TermRules.Variable.Factory

namespace TermRules

/-! ## The text of a minted variable -/

/-- The text of a fresh identity can be read in one way only: no number has an
underscore in it. -/
theorem Identity.display_fresh_inj {scope index scope' index' : UInt64}
    (h : (fresh scope index).display = (fresh scope' index').display) :
    fresh scope index = fresh scope' index' := by
  have hdigits : Nat.toDigits 10 scope.toNat ++ '_' :: Nat.toDigits 10 index.toNat =
      Nat.toDigits 10 scope'.toNat ++ '_' :: Nat.toDigits 10 index'.toNat := by
    have hchars := congrArg String.toList h
    simpa [display, Nat.toString_eq_repr, Nat.toList_repr, String.toList_append] using hchars
  obtain ⟨hscope, -, hindex⟩ := (List.append_cons_inj_of_notMem
    Nat.underscore_not_in_toDigits Nat.underscore_not_in_toDigits).1 hdigits
  have hnum : ∀ {a b : UInt64}, Nat.toDigits 10 a.toNat = Nat.toDigits 10 b.toNat → a = b := by
    intro a b hab
    have hread := congrArg (Nat.ofDigitChars 10 · 0) hab
    exact UInt64.toNat_inj.1 (by simpa using hread)
  rw [hnum hscope, hnum hindex]

/-- Unequal and displayed differently, whatever filters the two are given. -/
def Variable.Apart (v w : Variable) : Prop :=
  ∀ f g : Option Filter, ((⟨v.id, f⟩ : Variable) == ⟨w.id, g⟩) = false ∧
    (⟨v.id, f⟩ : Variable).display ≠ (⟨w.id, g⟩ : Variable).display

/-- The `i`-th variable of a scope. -/
def Variable.nth (scope : UInt64) (i : Nat) : Variable := ⟨.fresh scope (.ofNat i), none⟩

theorem Variable.nth_apart {scope scope' : UInt64} {i j : Nat}
    (h : scope = scope' → UInt64.ofNat i ≠ .ofNat j) :
    (nth scope i).Apart (nth scope' j) := by
  have hne : Identity.fresh scope (.ofNat i) ≠ .fresh scope' (.ofNat j) := by
    intro heq
    injection heq with hscope hindex
    exact h hscope hindex
  exact fun f g => ⟨(beq_eq_false_iff _ _).2 hne, fun hd => hne (Identity.display_fresh_inj hd)⟩

/-! ## The factories of a mint -/

/-- Where a minted variable is from: a factory created on request, by its number, or
the default factory of a thread. -/
inductive Source where
  | created (i : Nat)
  | defaultOf (thread : Nat)
deriving DecidableEq

namespace Mint

variable {m : Mint}

def factory? (m : Mint) : Source → Option Factory
  | .created i => m.created[i]?
  | .defaultOf thread => m.defaults.lookup thread

/-- The default factory of the thread comes to be, if it has not yet. -/
def prepare (m : Mint) (thread : Nat) : Mint :=
  match m.factory? (.defaultOf thread) with
  | some _ => m
  | none =>
    let (f, m) := m.newFactory
    { m with defaults := (thread, f) :: m.defaults }

theorem factory?_defaultOf (n : Nat) : m.factory? (.defaultOf n) = m.defaults.lookup n := rfl

theorem factory?_created_length : m.factory? (.created m.created.length) = none :=
  List.getElem?_eq_none (Nat.le_refl _)

theorem lookup_cons_of_ne {n k : Nat} (h : n ≠ k) {f : Factory} {fs : List (Nat × Factory)} :
    List.lookup n ((k, f) :: fs) = List.lookup n fs := by
  rw [List.lookup_cons, beq_eq_false_iff_ne.2 h]

/-- Removing the entries of one thread leaves those of the others. -/
theorem lookup_filter_of_ne {n k : Nat} (h : n ≠ k) :
    ∀ fs : List (Nat × Factory), List.lookup n (fs.filter (·.1 != k)) = List.lookup n fs
  | [] => rfl
  | (j, f) :: fs => by
    by_cases hj : j = k
    · subst hj
      rw [List.filter_cons_of_neg (by simp), lookup_filter_of_ne h fs, lookup_cons_of_ne h]
    · rw [List.filter_cons_of_pos (by simpa using hj), List.lookup_cons, List.lookup_cons,
        lookup_filter_of_ne h fs]

section Update

variable {m' : Mint} {f : Factory}

/-- One created factory is put in place, and the others are as they were. -/
theorem factory?_of_created {j : Nat} (hj : m'.created[j]? = some f)
    (hothers : ∀ i, i ≠ j → m'.created[i]? = m.created[i]?) (hdefaults : m'.defaults = m.defaults) :
    m'.factory? = Function.update m.factory? (.created j) (some f) := by
  funext x
  cases x with
  | created i =>
    by_cases hi : i = j
    · subst hi
      rw [Function.update_self]
      exact hj
    · rw [Function.update_of_ne (by simpa using hi)]
      exact hothers i hi
  | defaultOf n =>
    have hne : Source.defaultOf n ≠ .created j := nofun
    rw [Function.update_of_ne hne, factory?_defaultOf, factory?_defaultOf, hdefaults]

/-- The default factory of one thread is put in place, and those of others are as they
were. -/
theorem factory?_of_defaults {n : Nat} {fs : List (Nat × Factory)}
    (hn : m'.defaults = (n, f) :: fs) (hothers : ∀ k, k ≠ n → fs.lookup k = m.defaults.lookup k)
    (hcreated : m'.created = m.created) :
    m'.factory? = Function.update m.factory? (.defaultOf n) (some f) := by
  funext x
  cases x with
  | created i =>
    have hne : Source.created i ≠ .defaultOf n := nofun
    rw [Function.update_of_ne hne]
    exact congrArg (fun fs => fs[i]?) hcreated
  | defaultOf k =>
    rw [factory?_defaultOf, hn]
    by_cases hk : k = n
    · subst hk
      rw [Function.update_self, List.lookup_cons_self]
    · rw [Function.update_of_ne (by simpa using hk), lookup_cons_of_ne hk, hothers k hk,
        factory?_defaultOf]

end Update

theorem factory?_create :
    m.create.2.factory? =
      Function.update m.factory? (.created m.created.length) (some m.newFactory.1) := by
  have hcreated : m.create.2.created = m.created ++ [m.newFactory.1] := rfl
  refine factory?_of_created ?_ (fun i hi => ?_) rfl
  · rw [hcreated, List.getElem?_concat_length]
  · rw [hcreated, List.getElem?_append]
    split
    · rfl
    · rw [List.getElem?_eq_none (by simp; omega), List.getElem?_eq_none (by omega)]

theorem factory?_prepare {n : Nat} (h : m.factory? (.defaultOf n) = none) :
    (m.prepare n).factory? =
      Function.update m.factory? (.defaultOf n) (some m.newFactory.1) := by
  rw [prepare, h]
  exact factory?_of_defaults rfl (fun _ _ => rfl) rfl

/-- Preparing first makes no difference. -/
theorem freshOn_prepare (n : Nat) : (m.prepare n).freshOn n = m.freshOn n := by
  unfold prepare
  split
  · rfl
  · rename_i hnone
    rw [factory?_defaultOf] at hnone
    simp [freshOn, defaultOf, hnone, newFactory]

/-- What a call on a factory does: it alone changes, and hands out its next variable. -/
structure Called (m : Mint) (x : Source) (f : Factory) (r : Variable × Mint) : Prop where
  variable_eq : r.1 = f.fresh.1
  nextScope_eq : r.2.nextScope = m.nextScope
  factory?_eq : r.2.factory? = Function.update m.factory? x (some f.fresh.2)
  length_created : r.2.created.length = m.created.length

theorem fresh?_eq_none {i : Nat} (h : m.factory? (.created i) = none) : m.fresh? i = none := by
  have hi : m.created[i]? = none := h
  simp [fresh?, hi]

theorem called_fresh {i : Nat} {f : Factory} (h : m.factory? (.created i) = some f) :
    ∃ r, m.fresh? i = some r ∧ m.Called (.created i) f r := by
  have hi : m.created[i]? = some f := h
  refine ⟨(f.fresh.1, { m with created := m.created.set i f.fresh.2 }), by simp [fresh?, hi],
    rfl, rfl, ?_, List.length_set⟩
  refine factory?_of_created ?_ (fun j hj => ?_) rfl
  · exact List.getElem?_set_self (List.getElem?_eq_some_iff.1 hi).1
  · exact List.getElem?_set_ne (Ne.symm hj)

theorem called_freshOn {n : Nat} {f : Factory} (h : m.factory? (.defaultOf n) = some f) :
    m.Called (.defaultOf n) f (m.freshOn n) := by
  have hdefault : m.defaultOf n = (f, m) := by
    rw [defaultOf, ← factory?_defaultOf, h]
  have hfresh : m.freshOn n =
      (f.fresh.1, { m with defaults := (n, f.fresh.2) :: m.defaults.filter (·.1 != n) }) := by
    simp only [freshOn, hdefault]
  rw [hfresh]
  exact ⟨rfl, rfl, factory?_of_defaults rfl (fun _ hk => lookup_filter_of_ne hk _) rfl, rfl⟩

end Mint

/-! ## Interleaved requests -/

/-- What a mint is asked for, by any thread. -/
inductive Request where
  /-- A factory of its own. -/
  | create
  /-- The default factory of a thread. -/
  | prepare (thread : Nat)
  /-- A variable of the `i`-th created factory. -/
  | fresh (i : Nat)
  /-- A variable of a thread's default factory. -/
  | freshOn (thread : Nat)
deriving DecidableEq

namespace Request

/-- The factory that is called for a variable. -/
def source? : Request → Option Source
  | .create | .prepare _ => none
  | .fresh i => some (.created i)
  | .freshOn n => some (.defaultOf n)

/-- How many factories the request creates. -/
def creates : Request → Nat
  | .create => 1
  | .prepare _ | .fresh _ | .freshOn _ => 0

/-- With `n` created factories, the one that is called for a variable is there. -/
def addressed (n : Nat) : Request → Bool
  | .fresh i => i < n
  | .create | .prepare _ | .freshOn _ => true

/-- With `n` created factories at first, each one that is called for a variable is there
by then. -/
def allAddressed (n : Nat) : List Request → Bool
  | [] => true
  | r :: requests => r.addressed n && allAddressed (n + r.creates) requests

end Request

/-- A mint, and what has happened to it. -/
structure Minting where
  mint : Mint := {}
  /-- The factories, oldest first. -/
  opened : List Source := []
  /-- The minted variables and where each is from, oldest first. -/
  minted : List (Source × Variable) := []

namespace Minting

/-- A mint without factories. -/
def start : Minting := {}

/-- The factory has come to be. -/
def opens (m : Minting) (x : Source) (mint : Mint) : Minting :=
  { m with mint, opened := m.opened ++ [x] }

/-- A variable of the factory has been minted. -/
def mints (m : Minting) (x : Source) (r : Variable × Mint) : Minting :=
  { m with mint := r.2, minted := m.minted ++ [(x, r.1)] }

def prepare (m : Minting) (thread : Nat) : Minting :=
  match m.mint.factory? (.defaultOf thread) with
  | some _ => m
  | none => m.opens (.defaultOf thread) (m.mint.prepare thread)

def step (m : Minting) : Request → Minting
  | .create => m.opens (.created m.mint.created.length) m.mint.create.2
  | .prepare n => m.prepare n
  | .fresh i =>
    match m.mint.fresh? i with
    | some r => m.mints (.created i) r
    | none => m
  | .freshOn n => (m.prepare n).mints (.defaultOf n) (m.mint.freshOn n)

def run (m : Minting) (requests : List Request) : Minting := requests.foldl step m

/-- The variables of one factory, oldest first. -/
def mintedBy (m : Minting) (x : Source) : List Variable :=
  (m.minted.filter (·.1 = x)).map Prod.snd

theorem mint_prepare (m : Minting) (n : Nat) : (m.prepare n).mint = m.mint.prepare n := by
  unfold prepare
  split
  · rename_i hsome
    rw [Mint.prepare, hsome]
  · rfl

/-- After it has been prepared, a thread has its factory. -/
theorem exists_factory_prepare (m : Minting) (n : Nat) :
    ∃ f, (m.prepare n).mint.factory? (.defaultOf n) = some f := by
  rw [mint_prepare]
  cases h : m.mint.factory? (.defaultOf n) with
  | none => exact ⟨_, by rw [Mint.factory?_prepare h, Function.update_self]⟩
  | some f => exact ⟨f, by rw [Mint.prepare, h]; exact h⟩

/-- A call on a thread's factory is one on a prepared factory. -/
theorem step_freshOn (m : Minting) (n : Nat) :
    m.step (.freshOn n) =
      (m.prepare n).mints (.defaultOf n) ((m.prepare n).mint.freshOn n) := by
  rw [mint_prepare, Mint.freshOn_prepare]
  rfl

theorem length_mintedBy (m : Minting) (x : Source) :
    (m.mintedBy x).length = (m.minted.map Prod.fst).count x := by
  rw [mintedBy, List.length_map, List.count, List.countP_map, List.countP_eq_length_filter]
  rfl

/-- A variable more, for its own factory only. -/
theorem mintedBy_mints (m : Minting) (x y : Source) (r : Variable × Mint) :
    (m.mints x r).mintedBy y = m.mintedBy y ++ if x = y then [r.1] else [] := by
  simp only [mintedBy, mints, List.filter_append, List.map_append]
  split <;> simp [*]

/-! ## What the counters say -/

/-- The scope of a factory is the number of factories before it, and the number that
it has issued is that of its variables. Both count modulo `2 ^ 64`. -/
structure Sound (m : Minting) : Prop where
  nextScope : m.mint.nextScope = .ofNat m.opened.length
  nodup : m.opened.Nodup
  factory : ∀ {k x}, m.opened[k]? = some x →
    m.mint.factory? x = some ⟨.ofNat k, .ofNat (m.mintedBy x).length⟩
  numbered : ∀ {k x}, m.opened[k]? = some x →
    m.mintedBy x = (List.range (m.mintedBy x).length).map (Variable.nth (.ofNat k))
  mem_opened : ∀ {x f}, m.mint.factory? x = some f → x ∈ m.opened
  minted_opened : ∀ {a}, a ∈ m.minted → a.1 ∈ m.opened

theorem sound_start : start.Sound where
  nextScope := rfl
  nodup := List.nodup_nil
  factory h := nomatch h
  numbered h := nomatch h
  mem_opened {x _} h := by cases x <;> cases h
  minted_opened h := nomatch h

namespace Sound

variable {m : Minting} {x : Source}

theorem not_mem_opened (hm : m.Sound) (hx : m.mint.factory? x = none) : x ∉ m.opened := by
  intro hmem
  obtain ⟨k, hk⟩ := List.mem_iff_getElem?.1 hmem
  rw [hm.factory hk] at hx
  cases hx

theorem mintedBy_eq_nil (hm : m.Sound) (hx : m.mint.factory? x = none) : m.mintedBy x = [] := by
  refine List.map_eq_nil_iff.2 (List.filter_eq_nil_iff.2 fun a ha hax => ?_)
  rw [← of_decide_eq_true hax] at hx
  exact hm.not_mem_opened hx (hm.minted_opened ha)

/-- A place among the factories, once one more has come to be, is an old one or that of
the new factory. -/
theorem place_cases (hm : m.Sound) (hx : m.mint.factory? x = none) {k : Nat} {y : Source}
    (hk : (m.opened ++ [x])[k]? = some y) :
    m.opened[k]? = some y ∧ y ≠ x ∨ k = m.opened.length ∧ y = x := by
  rw [List.getElem?_append] at hk
  split at hk
  · refine .inl ⟨hk, ?_⟩
    rintro rfl
    exact hm.not_mem_opened hx (List.mem_of_getElem? hk)
  · obtain ⟨hlt, hy⟩ := List.getElem?_eq_some_iff.1 hk
    rw [List.length_singleton] at hlt
    exact .inr ⟨by omega, by simpa using hy.symm⟩

/-- A factory that comes to be takes the next scope. -/
theorem opens (hm : m.Sound) (hx : m.mint.factory? x = none) {mint : Mint}
    (hnext : mint.nextScope = m.mint.nextScope + 1)
    (hfactory : mint.factory? = Function.update m.mint.factory? x (some m.mint.newFactory.1)) :
    (m.opens x mint).Sound where
  nextScope := by
    simp [Minting.opens, hnext, hm.nextScope, UInt64.ofNat_add]
  nodup := by
    refine List.nodup_append.2 ⟨hm.nodup, List.nodup_singleton x, fun y hy z hz hyz => ?_⟩
    rw [hyz, List.mem_singleton.1 hz] at hy
    exact hm.not_mem_opened hx hy
  factory {k y} hk := by
    change mint.factory? y = some ⟨.ofNat k, .ofNat (m.mintedBy y).length⟩
    rcases hm.place_cases hx hk with ⟨hold, hyx⟩ | ⟨rfl, rfl⟩
    · rw [hfactory, Function.update_of_ne hyx, hm.factory hold]
    · rw [hfactory, Function.update_self, hm.mintedBy_eq_nil hx, ← hm.nextScope]
      rfl
  numbered {k y} hk := by
    change m.mintedBy y = (List.range (m.mintedBy y).length).map (Variable.nth (.ofNat k))
    rcases hm.place_cases hx hk with ⟨hold, -⟩ | ⟨rfl, rfl⟩
    · exact hm.numbered hold
    · rw [hm.mintedBy_eq_nil hx]
      rfl
  mem_opened {y f} hy := by
    change mint.factory? y = some f at hy
    by_cases hyx : y = x
    · exact List.mem_append_right _ (List.mem_singleton.2 hyx)
    · rw [hfactory, Function.update_of_ne hyx] at hy
      exact List.mem_append_left _ (hm.mem_opened hy)
  minted_opened ha := List.mem_append_left _ (hm.minted_opened ha)

/-- A factory that mints counts on, and no other factory does. -/
theorem mints (hm : m.Sound) {f : Factory} (hx : m.mint.factory? x = some f)
    {r : Variable × Mint} (hr : m.mint.Called x f r) : (m.mints x r).Sound where
  nextScope := hr.nextScope_eq.trans hm.nextScope
  nodup := hm.nodup
  factory {k y} hk := by
    change r.2.factory? y = _
    rw [hr.factory?_eq, mintedBy_mints]
    by_cases hyx : y = x
    · subst hyx
      rw [hm.factory hk] at hx
      rw [Function.update_self, if_pos rfl, List.length_append, List.length_singleton,
        UInt64.ofNat_add, ← Option.some.inj hx]
      rfl
    · rw [Function.update_of_ne hyx, if_neg (Ne.symm hyx), List.append_nil]
      exact hm.factory hk
  numbered {k y} hk := by
    rw [mintedBy_mints]
    by_cases hyx : y = x
    · subst hyx
      rw [hm.factory hk] at hx
      rw [if_pos rfl, List.length_append, List.length_singleton, List.range_succ, List.map_append,
        ← hm.numbered hk, hr.variable_eq, ← Option.some.inj hx]
      rfl
    · rw [if_neg (Ne.symm hyx), List.append_nil]
      exact hm.numbered hk
  mem_opened {y g} hy := by
    change r.2.factory? y = some g at hy
    by_cases hyx : y = x
    · subst hyx
      exact hm.mem_opened hx
    · rw [hr.factory?_eq, Function.update_of_ne hyx] at hy
      exact hm.mem_opened hy
  minted_opened {a} ha := by
    rcases List.mem_append.1 ha with ha | ha
    · exact hm.minted_opened ha
    · rw [List.mem_singleton.1 ha]
      exact hm.mem_opened hx

theorem prepare (hm : m.Sound) (n : Nat) : (m.prepare n).Sound := by
  unfold Minting.prepare
  split
  · exact hm
  · rename_i hnone
    refine hm.opens hnone ?_ (Mint.factory?_prepare hnone)
    rw [Mint.prepare, hnone]
    rfl

theorem step (hm : m.Sound) (r : Request) : (m.step r).Sound := by
  cases r with
  | create => exact hm.opens Mint.factory?_created_length rfl Mint.factory?_create
  | prepare n => exact hm.prepare n
  | fresh i =>
    simp only [Minting.step]
    cases hi : m.mint.factory? (.created i) with
    | some f =>
      obtain ⟨r, hr, hcalled⟩ := Mint.called_fresh hi
      rw [hr]
      exact hm.mints hi hcalled
    | none =>
      rw [Mint.fresh?_eq_none hi]
      exact hm
  | freshOn n =>
    obtain ⟨f, hf⟩ := exists_factory_prepare m n
    rw [step_freshOn]
    exact (hm.prepare n).mints hf (Mint.called_freshOn hf)

theorem run : ∀ {m : Minting}, m.Sound → ∀ requests, (m.run requests).Sound
  | _, hm, [] => hm
  | _, hm, r :: requests => run (hm.step r) requests

/-! ## Bounded counters -/

/-- Below the bound, counting modulo `2 ^ 64` is counting. -/
theorem ofNat_ne {i j : Nat} (hi : i < 2 ^ 64) (hj : j < 2 ^ 64) (h : i ≠ j) :
    UInt64.ofNat i ≠ .ofNat j := by
  intro heq
  have hnat := congrArg UInt64.toNat heq
  rw [UInt64.toNat_ofNat_of_lt' hi, UInt64.toNat_ofNat_of_lt' hj] at hnat
  exact h hnat

/-- One factory mints nothing twice. -/
theorem pairwise_mintedBy (hm : m.Sound) (hx : x ∈ m.opened)
    (hcalls : (m.mintedBy x).length < 2 ^ 64) : (m.mintedBy x).Pairwise Variable.Apart := by
  obtain ⟨k, hk⟩ := List.mem_iff_getElem?.1 hx
  rw [hm.numbered hk]
  refine List.pairwise_map.2 (List.pairwise_lt_range.imp_of_mem fun {i j} hi hj hij => ?_)
  rw [List.mem_range] at hi hj
  exact Variable.nth_apart fun _ => ofNat_ne (by omega) (by omega) (by omega)

/-- What a factory minted is in its scope. -/
theorem mem_scope (hm : m.Sound) {k : Nat} (hk : m.opened[k]? = some x) {v : Variable}
    (hv : (x, v) ∈ m.minted) : ∃ i, v = .nth (.ofNat k) i := by
  have hmem : v ∈ m.mintedBy x :=
    List.mem_map.2 ⟨(x, v), List.mem_filter.2 ⟨hv, decide_eq_true rfl⟩, rfl⟩
  rw [hm.numbered hk] at hmem
  obtain ⟨i, -, hi⟩ := List.mem_map.1 hmem
  exact ⟨i, hi.symm⟩

/-- No two factories mint the same. -/
theorem apart_of_ne (hm : m.Sound) (hfactories : m.opened.length < 2 ^ 64) {y : Source}
    (hxy : x ≠ y) {v w : Variable} (hv : (x, v) ∈ m.minted) (hw : (y, w) ∈ m.minted) :
    v.Apart w := by
  obtain ⟨k, hk⟩ := List.mem_iff_getElem?.1 (hm.minted_opened hv)
  obtain ⟨l, hl⟩ := List.mem_iff_getElem?.1 (hm.minted_opened hw)
  obtain ⟨i, rfl⟩ := hm.mem_scope hk hv
  obtain ⟨j, rfl⟩ := hm.mem_scope hl hw
  have hkl : k ≠ l := by
    rintro rfl
    exact hxy (Option.some.inj (hk.symm.trans hl))
  have hklt := (List.getElem?_eq_some_iff.1 hk).1
  have hllt := (List.getElem?_eq_some_iff.1 hl).1
  exact Variable.nth_apart fun hscope =>
    absurd hscope (ofNat_ne (by omega) (by omega) hkl)

theorem pairwise_minted (hm : m.Sound) (hfactories : m.opened.length < 2 ^ 64)
    (hcalls : ∀ x, (m.mintedBy x).length < 2 ^ 64) :
    m.minted.Pairwise fun a b => a.2.Apart b.2 := by
  refine List.pairwise_iff_forall_sublist.2 fun {a b} hab => ?_
  obtain ⟨x, v⟩ := a
  obtain ⟨y, w⟩ := b
  have hv : (x, v) ∈ m.minted := hab.subset List.mem_cons_self
  have hw : (y, w) ∈ m.minted := hab.subset (List.mem_cons_of_mem _ List.mem_cons_self)
  by_cases hxy : x = y
  · -- two calls at one factory are in this order among its own variables
    subst hxy
    have hvw : [v, w].Sublist (m.mintedBy x) := by
      have hfilter := (hab.filter (·.1 = x)).map Prod.snd
      simpa [mintedBy] using hfilter
    exact List.pairwise_iff_forall_sublist.1
      (hm.pairwise_mintedBy (hm.minted_opened hv) (hcalls x)) hvw
  · exact hm.apart_of_ne hfactories hxy hv hw

end Sound

/-! ## Whole runs -/

theorem created_prepare (m : Minting) (n : Nat) :
    (m.prepare n).mint.created = m.mint.created := by
  rw [mint_prepare, Mint.prepare]
  split <;> rfl

theorem minted_prepare (m : Minting) (n : Nat) : (m.prepare n).minted = m.minted := by
  rw [prepare]
  split <;> rfl

/-- A call at a factory that is there mints one variable, and nothing else does. -/
theorem sources_step (m : Minting) {r : Request}
    (h : r.addressed m.mint.created.length = true) :
    (m.step r).minted.map Prod.fst = m.minted.map Prod.fst ++ r.source?.toList := by
  cases r with
  | create => exact (List.append_nil _).symm
  | prepare n =>
    change (m.prepare n).minted.map Prod.fst = _
    rw [minted_prepare]
    exact (List.append_nil _).symm
  | fresh i =>
    obtain ⟨r, hr, -⟩ := Mint.called_fresh (List.getElem?_eq_getElem (of_decide_eq_true h))
    simp only [step, hr, mints, List.map_append]
    rfl
  | freshOn n =>
    simp only [step, mints, minted_prepare, List.map_append]
    rfl

theorem created_step (m : Minting) (r : Request) :
    (m.step r).mint.created.length = m.mint.created.length + r.creates := by
  cases r with
  | create => simp [step, opens, Mint.create, Mint.newFactory, Request.creates]
  | prepare n => exact congrArg List.length (created_prepare m n)
  | fresh i =>
    simp only [step]
    cases hi : m.mint.factory? (.created i) with
    | none =>
      rw [Mint.fresh?_eq_none hi]
      rfl
    | some f =>
      obtain ⟨r, hr, hcalled⟩ := Mint.called_fresh hi
      rw [hr]
      exact hcalled.length_created
  | freshOn n =>
    obtain ⟨f, hf⟩ := exists_factory_prepare m n
    rw [step_freshOn]
    exact (Mint.called_freshOn hf).length_created.trans
      (congrArg List.length (created_prepare m n))

theorem sources_run : ∀ (m : Minting) (requests : List Request),
    Request.allAddressed m.mint.created.length requests = true →
    (m.run requests).minted.map Prod.fst =
      m.minted.map Prod.fst ++ requests.filterMap Request.source?
  | m, [], _ => (List.append_nil _).symm
  | m, r :: requests, h => by
    obtain ⟨hr, hrequests⟩ := (Bool.and_eq_true _ _).mp h
    rw [← created_step] at hrequests
    have hrest := sources_run (m.step r) requests hrequests
    rw [sources_step m hr, List.append_assoc] at hrest
    refine hrest.trans ?_
    rw [List.filterMap_cons]
    cases r.source? <;> rfl

/-- **No two variables are minted alike.** Let any number of threads ask for factories and
call them for variables, in any order, with fewer than `2 ^ 64` factories and fewer than
`2 ^ 64` calls at each of them. Every call mints a variable; any two of these are unequal
and displayed differently, whatever filters they are given, and none equals a named one.
Each factory has issued as many as it was called for, and its calls are numbered from zero
in its scope. -/
theorem run_fresh (requests : List Request)
    (haddressed : Request.allAddressed 0 requests = true)
    (hfactories : (start.run requests).opened.length < 2 ^ 64)
    (hcalls : ∀ x, (requests.filterMap Request.source?).count x < 2 ^ 64) :
    (start.run requests).minted.map Prod.fst = requests.filterMap Request.source? ∧
    (start.run requests).minted.Pairwise (fun a b => a.2.Apart b.2) ∧
    (∀ a ∈ (start.run requests).minted, ∀ s f g,
      ((⟨a.2.id, f⟩ : Variable) == ⟨.named s, g⟩) = false) ∧
    ∀ x f, (start.run requests).mint.factory? x = some f →
      f.issued.toNat = (requests.filterMap Request.source?).count x ∧
      ∀ k v, ((start.run requests).mintedBy x)[k]? = some v →
        ∃ index : UInt64, index.toNat = k ∧ v = ⟨.fresh f.scope index, none⟩ := by
  have hsound := sound_start.run requests
  have hsources := sources_run start requests haddressed
  have hlength : ∀ x, ((start.run requests).mintedBy x).length =
      (requests.filterMap Request.source?).count x := by
    intro x
    rw [length_mintedBy, hsources]
    rfl
  refine ⟨hsources, ?_, ?_, ?_⟩
  · exact hsound.pairwise_minted hfactories fun x => hlength x ▸ hcalls x
  · rintro ⟨x, v⟩ ha s f g
    obtain ⟨k, hk⟩ := List.mem_iff_getElem?.1 (hsound.minted_opened ha)
    obtain ⟨i, rfl⟩ := hsound.mem_scope hk ha
    exact (Variable.beq_eq_false_iff _ _).2 (fun h => nomatch h)
  · intro x f hx
    obtain ⟨k, hk⟩ := List.mem_iff_getElem?.1 (hsound.mem_opened hx)
    rw [hsound.factory hk, hlength] at hx
    obtain rfl := Option.some.inj hx
    refine ⟨UInt64.toNat_ofNat_of_lt' (hcalls x), fun i v hv => ?_⟩
    rw [hsound.numbered hk, hlength, List.getElem?_map] at hv
    obtain ⟨j, hj, rfl⟩ := Option.map_eq_some_iff.1 hv
    obtain ⟨hi, rfl⟩ := List.getElem?_eq_some_iff.1 hj
    rw [List.length_range] at hi
    rw [List.getElem_range]
    exact ⟨.ofNat i, UInt64.toNat_ofNat_of_lt' (hi.trans (hcalls x)), rfl⟩

/-- A thread mints before any factory is created on request, another gets its default
factory, and its first variable only after others have minted in between. -/
def interleaved : List Request :=
  [.freshOn 1, .create, .prepare 2, .fresh 0, .freshOn 1, .freshOn 2, .fresh 0]

/-- Three factories, five variables. -/
theorem run_fresh_interleaved :
    (start.run interleaved).minted.map (fun a => a.2.display) =
      ["$_0_0", "$_1_0", "$_0_1", "$_2_0", "$_1_1"] ∧
    (start.run interleaved).minted.Pairwise (fun a b => a.2.Apart b.2) ∧
    ∀ f, (start.run interleaved).mint.factory? (.created 0) = some f → f.issued.toNat = 2 := by
  obtain ⟨-, hapart, -, hfactory⟩ := run_fresh interleaved (by decide) (by decide)
    (fun x => List.count_le_length.trans_lt (by decide))
  exact ⟨by decide, hapart, fun f hf => (hfactory (.created 0) f hf).1⟩

end Minting

end TermRules

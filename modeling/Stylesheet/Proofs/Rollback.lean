import Stylesheet.Parse
import Stylesheet.Proofs.Lockstep

/-!
# Giving an attempt up

A declaration that turns out to be none is given up, and with it the place and the warnings, but not
the end of the last block.  Whether that can be seen depends on one thing
(`rollback_unobservable_iff`): white space beyond ASCII right behind a colon.  For a declaration it
is space, and a block may follow; for a selector it is the beginning of a name.  Only there can an
attempt that has read a block be followed by a ruleset, whose statements may then end where that
block did.
-/
namespace Stylesheet

open Grammar

/-- Parsing a text, where giving up an attempt gives back the whole state. -/
def parseRestoring (source : Text) (options : Options := {}) : Parsed :=
  match document (.start source options .everything) with
  | .ok node s => ⟨.ok node, s.warnings, s.log⟩
  | .error e s => ⟨.error e, s.warnings, s.log⟩

/-- Whatever giving up an attempt leaves behind cannot be seen in the document and the warnings. -/
def RollbackUnobservable (source : Text) (options : Options) : Prop :=
  ∀ tree warnings,
    (parse source options).result = .ok tree ∧ (parse source options).warnings = warnings ↔
      (parseRestoring source options).result = .ok tree ∧
        (parseRestoring source options).warnings = warnings

/-- White space beyond ASCII.  It may begin a name. -/
def Hidden (x : Char) : Prop :=
  isBlank x = true ∧ 0x7F < x.toNat

instance : DecidablePred Hidden := fun _ => inferInstanceAs (Decidable (_ ∧ _))

/-- **Without hidden white space behind a colon, giving up an attempt cannot be seen.** -/
theorem rollback_unobservable {source : Text} (h : ∀ x, [':', x] <:+: source → ¬ Hidden x)
    (options : Options) : RollbackUnobservable source options := by
  have hascii : ∀ x, [':', x] <:+: (Cursor.start source options.line 0).rest → isBlank x = true →
      x.toNat ≤ 0x7F := fun x hx hblank => Nat.not_lt.mp fun hbeyond => h x hx ⟨hblank, hbeyond⟩
  have hstart : Alike (.start source options.line 0) options (.start source options)
      (.start source options .everything) := ⟨.refl _, rfl, rfl, [], rfl⟩
  have hruns := lockstep_document hascii _ _ hstart
  intro tree warnings
  unfold parse parseRestoring
  generalize document (.start source options) = r,
    document (.start source options .everything) = r' at hruns ⊢
  cases hruns with
  | ok node alike =>
    obtain ⟨_, _, _, k, rfl⟩ := alike
    exact Iff.rfl
  | error e e' =>
    constructor
    · rintro ⟨h, _⟩
      cases h
    · rintro ⟨h, _⟩
      cases h

/-! ### Hidden white space behind a colon -/

/-- The code points of the hidden white space. -/
def hiddenCodes : List Nat := [
  0x85, 0xA0, 0x1680, 0x2000, 0x2001, 0x2002, 0x2003, 0x2004, 0x2005, 0x2006, 0x2007,
  0x2008, 0x2009, 0x200A, 0x2028, 0x2029, 0x202F, 0x205F, 0x3000]

theorem mem_hiddenCodes {x : Char} (h : Hidden x) : x.toNat ∈ hiddenCodes := by
  obtain ⟨hblank, hbeyond⟩ := h
  simp only [isBlank, Bool.or_eq_true, Bool.and_eq_true, decide_eq_true_eq, beq_iff_eq] at hblank
  simp only [hiddenCodes, List.mem_cons, List.not_mem_nil, or_false]
  omega

/-- A declaration up to a block inside a string, if the character behind its colon is space, and a
ruleset if it begins a name.  Inside the ruleset a declaration reaches up to the end of that
block. -/
def strayBlock (x : Char) : Text :=
  "a:".toList ++
    x :: "b(\") \x7b x:\" \x7b e \x7b /*\"; c:d( #\x7b*/ \x7d!default ) \x7b \x7d \x7d".toList

theorem pair_mem_zip {x y : Char} {t : Text} (h : [x, y] <:+: t) : (x, y) ∈ t.zip t.tail := by
  obtain ⟨before, behind, rfl⟩ := h
  induction before with
  | nil => exact List.mem_cons_self
  | cons z before ih =>
    cases before with
    | nil => exact List.mem_cons_of_mem _ ih
    | cons w before => exact List.mem_cons_of_mem _ ih

theorem strayBlock_spec :
    ∀ n ∈ hiddenCodes,
      (match (parse (strayBlock (Char.ofNat n))).result,
        (parseRestoring (strayBlock (Char.ofNat n))).result with
      | .error _, .ok _ => true
      | _, _ => false) = true ∧
      ∀ p ∈ (strayBlock (Char.ofNat n)).zip (strayBlock (Char.ofNat n)).tail,
        p.1 = ':' → Hidden p.2 → p.2 = Char.ofNat n := by
  decide +kernel

/-- Each kind of hidden white space can be what makes giving up an attempt visible. -/
theorem strayBlock_observable {x : Char} (h : Hidden x) :
    ¬ RollbackUnobservable (strayBlock x) {} ∧
      ∀ y, [':', y] <:+: strayBlock x → Hidden y → y = x := by
  obtain ⟨hruns, hpairs⟩ := strayBlock_spec x.toNat (mem_hiddenCodes h)
  rw [Char.ofNat_toNat] at hruns hpairs
  refine ⟨fun hsame => ?_, fun y hy => hpairs (':', y) (pair_mem_zip hy) rfl⟩
  split at hruns
  · next e node hparse hrestoring =>
    obtain ⟨hok, _⟩ := (hsame node _).mpr ⟨hrestoring, rfl⟩
    rw [hparse] at hok
    cases hok
  · cases hruns

/-- **What giving up an attempt leaves behind cannot be seen, if and only if no hidden white space
follows a colon.**  Of every set of characters that may follow a colon this says which set it is:
one without hidden white space. -/
theorem rollback_unobservable_iff (allowed : Char → Prop) :
    (∀ source : Text, (∀ x, [':', x] <:+: source → Hidden x → allowed x) →
      ∀ options, RollbackUnobservable source options) ↔ ∀ x, Hidden x → ¬ allowed x := by
  constructor
  · intro h x hx hallowed
    obtain ⟨hobservable, honly⟩ := strayBlock_observable hx
    refine hobservable (h _ (fun y hy hhidden => ?_) {})
    rwa [honly y hy hhidden]
  · intro h source hsource options
    exact rollback_unobservable (fun x hx hhidden => h x hhidden (hsource x hx hhidden)) options

/-- With a no-break space behind a colon, a text is rejected that is read if the whole state is
given back. -/
theorem rollback_observable_noBreakSpace :
    ¬ RollbackUnobservable
      "a:\u00a0b(\") \x7b x:\" \x7b e \x7b /*\"; c:d( #\x7b*/ \x7d!default ) \x7b \x7d \x7d".toList
        {} := by
  have htext :
      "a:\u00a0b(\") \x7b x:\" \x7b e \x7b /*\"; c:d( #\x7b*/ \x7d!default ) \x7b \x7d \x7d".toList =
      strayBlock '\u00a0' := by decide +kernel
  rw [htext]
  exact (strayBlock_observable (by decide)).1

end Stylesheet

import FusionTree.Proofs.Token.Matching
import Mathlib.Computability.Language
import Mathlib.Data.List.Chain

/-!
# The patterns of strings and comments

Strings and block comments as regular languages: with repetitions in repetitions, which could split
one text in several ways. A text of the pattern of strings is a run of units between two quotes, and
a text of the pattern of comments is one that ends where it is closed for the first time. So no
choice is left: what a text may be split into does not matter for where it ends.
-/

namespace FusionTree.Pattern

open scoped Computability
open Rule (Units)

/-! ### Building blocks -/

def charOf (p : Char → Prop) : Language Char := {w | ∃ c, p c ∧ w = [c]}

def word (w : List Char) : Language Char := {w}

variable {p : Char → Prop} {l : Language Char} {w x y : List Char}

theorem singleton_mem_charOf {c : Char} (h : p c) : [c] ∈ charOf p := ⟨c, h, rfl⟩

theorem self_mem_word (w : List Char) : w ∈ word w := rfl

theorem append_mem_kstar (hx : x ∈ l) (hy : y ∈ l∗) : x ++ y ∈ l∗ := by
  rw [← Language.one_add_self_mul_kstar_eq_kstar]
  exact Or.inr (Language.append_mem_mul hx hy)

theorem mem_kstar_charOf_iff : w ∈ (charOf p)∗ ↔ ∀ c ∈ w, p c := by
  constructor
  · rintro ⟨pieces, rfl, each⟩ c hc
    obtain ⟨piece, hp, mem⟩ := List.mem_flatten.mp hc
    obtain ⟨d, hd, rfl⟩ := each piece hp
    rwa [List.mem_singleton.mp mem]
  · intro all
    induction w with
    | nil => exact Language.nil_mem_kstar _
    | cons c w ih =>
      obtain ⟨head, tail⟩ := List.forall_mem_cons.mp all
      exact append_mem_kstar (singleton_mem_charOf head) (ih tail)

/-- What holds of a text and is kept when a word of the language comes behind it, holds behind any
number of such words. -/
theorem kstar_induction {P : List Char → Prop} (step : ∀ x y, P x → y ∈ l → P (x ++ y)) (hx : P x)
    (hy : y ∈ l∗) : P (x ++ y) := by
  obtain ⟨pieces, rfl, each⟩ := hy
  induction pieces generalizing x with
  | nil => simpa using hx
  | cons piece pieces ih =>
    obtain ⟨head, tail⟩ := List.forall_mem_cons.mp each
    rw [List.flatten_cons, ← List.append_assoc]
    exact ih (step _ _ hx head) tail

/-! ### Strings -/

/-- The characters of a string that mean themselves. -/
def plainRun (quote : Char) : Language Char := (charOf fun c => c ≠ quote ∧ c ≠ '\\')∗

/-- Two quotes with a run of plain characters between them, or several such runs with an escape
before each further one. -/
def string (quote : Char) : Language Char :=
  word [quote] * plainRun quote * (word ['\\'] * charOf (· ≠ '\n') * plainRun quote)∗ * word [quote]

theorem units_of_mem_plainRun {quote : Char} (h : w ∈ plainRun quote) : Units quote p w := by
  have all := mem_kstar_charOf_iff.mp h
  clear h
  induction w with
  | nil => exact .nil
  | cons c w ih =>
    obtain ⟨⟨noQuote, noBackslash⟩, tail⟩ := List.forall_mem_cons.mp all
    exact .plain noQuote noBackslash (ih tail)

theorem cons_mem_plainRun {quote c : Char} (noQuote : c ≠ quote) (noBackslash : c ≠ '\\')
    (h : w ∈ plainRun quote) : c :: w ∈ plainRun quote :=
  append_mem_kstar (singleton_mem_charOf ⟨noQuote, noBackslash⟩) h

theorem mem_runs_iff {quote : Char} :
    w ∈ plainRun quote * (word ['\\'] * charOf (· ≠ '\n') * plainRun quote)∗ ↔
      Units quote (· ≠ '\n') w := by
  constructor
  · rintro ⟨run, hrun, more, hmore, rfl⟩
    refine kstar_induction (fun x y hx hy => ?_) (units_of_mem_plainRun hrun) hmore
    obtain ⟨_, ⟨_, rfl, _, ⟨c, hc, rfl⟩, rfl⟩, run, hrun, rfl⟩ := hy
    exact hx.append (.pair hc (units_of_mem_plainRun hrun))
  · intro units
    induction units with
    | nil => exact Language.append_mem_mul (Language.nil_mem_kstar _) (Language.nil_mem_kstar _)
    | plain noQuote noBackslash _ ih =>
      obtain ⟨run, hrun, more, hmore, rfl⟩ := ih
      exact Language.append_mem_mul (cons_mem_plainRun noQuote noBackslash hrun) hmore
    | @pair c rest hc _ ih =>
      obtain ⟨run, hrun, more, hmore, rfl⟩ := ih
      have escape : ['\\'] ++ [c] ++ run ∈ word ['\\'] * charOf (· ≠ '\n') * plainRun quote :=
        Language.append_mem_mul
          (Language.append_mem_mul (self_mem_word _) (singleton_mem_charOf hc)) hrun
      exact Language.append_mem_mul (Language.nil_mem_kstar _) (append_mem_kstar escape hmore)

/-- A string is a run of units between two quotes. -/
theorem mem_string_iff {quote : Char} :
    w ∈ string quote ↔ ∃ inner, Units quote (· ≠ '\n') inner ∧ w = quote :: (inner ++ [quote]) := by
  rw [string, mul_assoc (word [quote])]
  constructor
  · rintro ⟨_, ⟨_, rfl, inner, hi, rfl⟩, _, rfl, rfl⟩
    exact ⟨inner, mem_runs_iff.mp hi, rfl⟩
  · rintro ⟨inner, hi, rfl⟩
    exact Language.append_mem_mul
      (Language.append_mem_mul (self_mem_word [quote]) (mem_runs_iff.mpr hi))
      (self_mem_word [quote])

/-! ### Comments -/

def stars : Language Char := charOf (· = '*') * (charOf (· = '*'))∗

/-- Anything but stars, and then stars. -/
def starred : Language Char := (charOf (· ≠ '*'))∗ * stars

/-- What goes on behind stars, but does not close a comment there, and ends with stars again. -/
def further : Language Char := charOf (fun c => c ≠ '/' ∧ c ≠ '*') * starred

/-- A comment: its opening, something that ends with stars, any number of times something further
that does so too, and the slash. -/
def comment : Language Char := word ['/', '*'] * starred * further∗ * word ['/']

/-- The slash does not come right behind the star. -/
def Apart (a b : Char) : Prop := ¬(a = '*' ∧ b = '/')

/-- The text ends with a star, and nowhere in it a slash comes right behind a star. -/
structure Unclosed (w : List Char) : Prop where
  getLast? : w.getLast? = some '*'
  chain : w.IsChain Apart

theorem not_infix_iff_isChain : ¬['*', '/'] <:+: w ↔ w.IsChain Apart := by
  rw [List.isChain_iff_forall_rel_of_append_cons_cons]
  constructor
  · rintro noEnd a b before after rfl ⟨rfl, rfl⟩
    exact noEnd ⟨before, after, by simp⟩
  · rintro chain ⟨before, after, rfl⟩
    exact chain (by simp : _ = before ++ '*' :: '/' :: after) ⟨rfl, rfl⟩

theorem apart_of_ne_star {a b : Char} (h : a ≠ '*') : Apart a b := fun ⟨star, _⟩ => h star

theorem apart_of_ne_slash {a b : Char} (h : b ≠ '/') : Apart a b := fun ⟨_, slash⟩ => h slash

theorem isChain_of_forall (h : ∀ a ∈ w, ∀ b ∈ w, Apart a b) : w.IsChain Apart :=
  (List.pairwise_of_forall_mem_list h).isChain

theorem Unclosed.tail {c : Char} (h : Unclosed (c :: w)) (ne_nil : w ≠ []) : Unclosed w where
  getLast? := by
    rw [← h.getLast?, List.getLast?_cons_of_ne_nil ne_nil]
  chain := h.chain.tail

theorem Unclosed.ne_nil {c : Char} (h : Unclosed (c :: w)) (other : c ≠ '*') : w ≠ [] := by
  rintro rfl
  exact other (Option.some.inj h.getLast?)

theorem unclosed_stars (h : w ∈ stars) : Unclosed w := by
  obtain ⟨_, ⟨_, rfl, rfl⟩, more, hm, rfl⟩ := h
  have all : ∀ c ∈ '*' :: more, c = '*' :=
    List.forall_mem_cons.mpr ⟨rfl, mem_kstar_charOf_iff.mp hm⟩
  constructor
  · show ('*' :: more).getLast? = some '*'
    rw [List.getLast?_eq_some_getLast (List.cons_ne_nil _ _), all _ (List.getLast_mem _)]
  · refine isChain_of_forall fun a _ b hb => apart_of_ne_slash ?_
    rw [all b hb]
    decide

/-- Something may stand before an unclosed text if no slash comes right behind a star. -/
theorem Unclosed.append (h : Unclosed w) (hx : x.IsChain Apart)
    (link : ∀ a ∈ x.getLast?, ∀ b ∈ w.head?, Apart a b) : Unclosed (x ++ w) where
  getLast? := by rw [List.getLast?_append, h.getLast?, Option.some_or]
  chain := List.isChain_append.mpr ⟨hx, h.chain, link⟩

theorem unclosed_of_mem_starred (h : w ∈ starred) : Unclosed w := by
  obtain ⟨others, ho, ending, he, rfl⟩ := h
  have noStar := mem_kstar_charOf_iff.mp ho
  refine (unclosed_stars he).append ?_ fun a ha b _ => ?_
  · exact isChain_of_forall fun a ha b _ => apart_of_ne_star (noStar a ha)
  · exact apart_of_ne_star (noStar a (List.mem_of_getLast? ha))

theorem Unclosed.append_further (hx : Unclosed x) (hy : y ∈ further) : Unclosed (x ++ y) := by
  obtain ⟨_, ⟨c, ⟨noSlash, noStar⟩, rfl⟩, rest, hr, rfl⟩ := hy
  have behind : Unclosed ([c] ++ rest) :=
    (unclosed_of_mem_starred hr).append (.singleton c) fun a ha b _ => by
      obtain rfl := Option.some.inj ha
      exact apart_of_ne_star noStar
  refine behind.append hx.chain fun a _ b hb => ?_
  obtain rfl := Option.some.inj hb
  exact apart_of_ne_slash noSlash

/-- Before a character that is no star the text must have been split in front of it; behind a star
it may also go on with stars. -/
theorem mem_of_unclosed (w : List Char) :
    (Unclosed w → w ∈ starred * further∗) ∧
      (Unclosed ('*' :: w) → w ∈ (charOf (· = '*'))∗ * further∗) := by
  induction w with
  | nil =>
    refine ⟨fun h => (nomatch h.getLast?), fun _ => ?_⟩
    exact Language.append_mem_mul (Language.nil_mem_kstar _) (Language.nil_mem_kstar _)
  | cons c w ih =>
    obtain ⟨ih, behindStar⟩ := ih
    have star_mem : ['*'] ∈ charOf (· = '*') := singleton_mem_charOf rfl
    by_cases star : c = '*'
    · subst star
      constructor
      · intro h
        obtain ⟨run, hrun, more, hmore, rfl⟩ := behindStar h
        have ending : '*' :: run ∈ stars := Language.append_mem_mul star_mem hrun
        exact Language.append_mem_mul (Language.append_mem_mul (Language.nil_mem_kstar _) ending)
          hmore
      · intro h
        obtain ⟨run, hrun, more, hmore, rfl⟩ := behindStar (h.tail (List.cons_ne_nil _ _))
        exact Language.append_mem_mul (append_mem_kstar star_mem hrun) hmore
    · constructor
      · intro h
        obtain ⟨_, ⟨others, ho, ending, he, rfl⟩, more, hmore, rfl⟩ :=
          ih (h.tail (h.ne_nil star))
        exact Language.append_mem_mul (Language.append_mem_mul
          (append_mem_kstar (singleton_mem_charOf star) ho) he) hmore
      · intro h
        have noSlash : c ≠ '/' := fun slash =>
          (List.isChain_cons_cons.mp h.chain).1 ⟨rfl, slash⟩
        have behind := h.tail (List.cons_ne_nil _ _)
        obtain ⟨first, hfirst, more, hmore, rfl⟩ := ih (behind.tail (behind.ne_nil star))
        have piece : c :: first ∈ further :=
          Language.append_mem_mul (singleton_mem_charOf ⟨noSlash, star⟩) hfirst
        exact Language.append_mem_mul (Language.nil_mem_kstar _) (append_mem_kstar piece hmore)

theorem mem_starred_further_iff : w ∈ starred * further∗ ↔ Unclosed w := by
  refine ⟨?_, (mem_of_unclosed w).1⟩
  rintro ⟨first, hfirst, more, hmore, rfl⟩
  exact kstar_induction (fun _ _ => Unclosed.append_further) (unclosed_of_mem_starred hfirst) hmore

theorem unclosed_iff : Unclosed w ↔ ∃ body, ¬['*', '/'] <:+: body ∧ w = body ++ ['*'] := by
  constructor
  · intro h
    obtain ⟨body, rfl⟩ := List.getLast?_eq_some_iff.mp h.getLast?
    exact ⟨body, not_infix_iff_isChain.mpr (List.isChain_append.mp h.chain).1, rfl⟩
  · rintro ⟨body, noEnd, rfl⟩
    have last : Unclosed ['*'] := ⟨rfl, .singleton _⟩
    refine last.append (not_infix_iff_isChain.mp noEnd) fun a _ b hb => ?_
    obtain rfl := Option.some.inj hb
    exact apart_of_ne_slash (by decide)

/-- A comment has its end nowhere inside. -/
theorem mem_comment_iff :
    w ∈ comment ↔ ∃ body, ¬['*', '/'] <:+: body ∧ w = '/' :: '*' :: (body ++ ['*', '/']) := by
  rw [comment, mul_assoc (word ['/', '*'])]
  constructor
  · rintro ⟨_, ⟨_, rfl, inner, hi, rfl⟩, _, rfl, rfl⟩
    obtain ⟨body, noEnd, rfl⟩ := unclosed_iff.mp (mem_starred_further_iff.mp hi)
    exact ⟨body, noEnd, by simp⟩
  · rintro ⟨body, noEnd, rfl⟩
    have inner := mem_starred_further_iff.mpr (unclosed_iff.mpr ⟨body, noEnd, rfl⟩)
    have whole : '/' :: '*' :: (body ++ ['*', '/']) = ['/', '*'] ++ (body ++ ['*']) ++ ['/'] := by
      simp
    rw [whole]
    exact Language.append_mem_mul (Language.append_mem_mul (self_mem_word _) inner)
      (self_mem_word _)

end FusionTree.Pattern

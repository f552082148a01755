import Mathlib.Data.Option.Basic

/-!
# Programs that Ask

A handler of system calls makes calls of its own and goes on with what they
return. What holds of every run is proved by going through the program once.

## Main definitions

* `Dialogue`: A program that is done, or asks something and has a continuation for
  every reply.
* `run`: A dialogue before a server, which may keep a state and may refuse to reply.
* `Ensures`: A condition holds whenever a run comes to an end.
* `Always`: What every question and every result satisfies whatever the replies are.
* `Abreast`: Two dialogues go on in the same way.

## Theorems

* `ensures_ask`, `ensures_bind`: The rules for the ways a dialogue is built.
* `ensures_of_always`: What a server keeps, a run keeps.
-/

namespace LindGrates

/-- A program that asks questions of type `Q`, gets replies of type `R` and comes
    to a result of type `A`. -/
inductive Dialogue (Q R A : Type)
  | done (a : A)
  | ask (q : Q) (k : R → Dialogue Q R A)

namespace Dialogue

variable {Q R A B W : Type}

def bind : Dialogue Q R A → (A → Dialogue Q R B) → Dialogue Q R B
  | done a, f => f a
  | ask q k, f => ask q fun r => (k r).bind f

instance : Monad (Dialogue Q R) where
  pure := done
  bind := bind

def request (q : Q) : Dialogue Q R R :=
  ask q done

@[simp]
theorem request_bind (q : Q) (f : R → Dialogue Q R B) : (request q >>= f) = ask q f :=
  rfl

/-- The run of a dialogue before a server. There is none if the server does not
    reply. -/
def run (serve : W → Q → Option (W × R)) : Dialogue Q R A → W → Option (W × A)
  | done a, w => some (w, a)
  | ask q k, w => (serve w q).bind fun reply => (k reply.2).run serve reply.1

variable {serve : W → Q → Option (W × R)}

@[simp]
theorem run_ask (q : Q) (k : R → Dialogue Q R A) (w : W) :
    (ask q k).run serve w = (serve w q).bind fun reply => (k reply.2).run serve reply.1 :=
  rfl

/-- What every run that comes to an end satisfies. -/
def Ensures (serve : W → Q → Option (W × R)) (d : Dialogue Q R A) (w : W) (post : W → A → Prop) :
    Prop :=
  ∀ w' a, d.run serve w = some (w', a) → post w' a

variable {w : W} {post : W → A → Prop} {d : Dialogue Q R A}

theorem ensures_done {a : A} (h : post w a) : Ensures serve (done a) w post := by
  intro w' a' hrun
  cases hrun
  exact h

theorem ensures_ask {q : Q} {k : R → Dialogue Q R A}
    (h : ∀ w' r, serve w q = some (w', r) → Ensures serve (k r) w' post) :
    Ensures serve (ask q k) w post := by
  intro w' a hrun
  rcases Option.bind_eq_some_iff.mp hrun with ⟨reply, hserve, hrest⟩
  exact h reply.1 reply.2 hserve w' a hrest

theorem ensures_request {q : Q} {f : R → Dialogue Q R A}
    (h : ∀ w' r, serve w q = some (w', r) → Ensures serve (f r) w' post) :
    Ensures serve (request q >>= f) w post :=
  ensures_ask h

theorem ensures_bind {f : A → Dialogue Q R B} {mid : W → A → Prop} {post : W → B → Prop}
    (hd : Ensures serve d w mid) (hf : ∀ w' a, mid w' a → Ensures serve (f a) w' post) :
    Ensures serve (d >>= f) w post := by
  induction d generalizing w with
  | done a => exact hf w a (hd w a rfl)
  | ask q k ih =>
    refine ensures_ask fun w' r hserve => ih r fun w1 a hrun => hd w1 a ?_
    rw [run_ask, hserve]
    exact hrun

theorem ensures_mono {post' : W → A → Prop} (h : Ensures serve d w post)
    (hmono : ∀ w' a, post w' a → post' w' a) : Ensures serve d w post' :=
  fun w' a hrun => hmono w' a (h w' a hrun)

/-- Every question satisfies one condition and every result another, whatever the
    replies are. -/
def Always (ok : Q → Prop) (post : A → Prop) : Dialogue Q R A → Prop
  | done a => post a
  | ask q k => ok q ∧ ∀ r, (k r).Always ok post

/-- Where a server keeps a property when it replies to the questions that are
    asked, a run keeps it. -/
theorem ensures_of_always {ok : Q → Prop} {post : A → Prop} {inv : W → Prop}
    (hserve : ∀ w q w' r, inv w → ok q → serve w q = some (w', r) → inv w') (hd : d.Always ok post)
    (hw : inv w) : Ensures serve d w fun w' a => inv w' ∧ post a := by
  induction d generalizing w with
  | done => exact ensures_done ⟨hw, hd⟩
  | ask q k ih => exact ensures_ask fun w' r hr => ih r (hd.2 r) (hserve w q w' r hw hd.1 hr)

/-- Two dialogues ask related questions as long as they get the same replies, and
    come to related results. -/
def Abreast (rel : Q → Q → Prop) (post : A → B → Prop) : Dialogue Q R A → Dialogue Q R B → Prop
  | done a, done b => post a b
  | ask q k, ask q' k' => rel q q' ∧ ∀ r, (k r).Abreast rel post (k' r)
  | _, _ => False

variable {rel : Q → Q → Prop} {C D : Type}

theorem abreast_done {post : A → B → Prop} {a : A} {b : B} (h : post a b) :
    Abreast rel post (done a : Dialogue Q R A) (done b) :=
  h

theorem abreast_request {post : A → B → Prop} {q q' : Q} {k : R → Dialogue Q R A}
    {k' : R → Dialogue Q R B} (hq : rel q q') (h : ∀ r, Abreast rel post (k r) (k' r)) :
    Abreast rel post (request q >>= k) (request q' >>= k') :=
  ⟨hq, h⟩

theorem abreast_bind {mid : A → B → Prop} {post : C → D → Prop} {d : Dialogue Q R A}
    {d' : Dialogue Q R B} {f : A → Dialogue Q R C} {f' : B → Dialogue Q R D}
    (hd : Abreast rel mid d d') (hf : ∀ a b, mid a b → Abreast rel post (f a) (f' b)) :
    Abreast rel post (d >>= f) (d' >>= f') := by
  induction d generalizing d' with
  | done a =>
    cases d' with
    | done b => exact hf a b hd
    | ask => exact hd.elim
  | ask q k ih =>
    cases d' with
    | done => exact hd.elim
    | ask => exact ⟨hd.1, fun r => ih r (hd.2 r)⟩

end Dialogue

end LindGrates

import Mathlib.Logic.Function.Iterate

/-!
# The pseudo-random generator (`prng.c`)

Transaction ids and the ids of offers are numbers of this generator. A call takes the
state of four words to another, and every step of it can be undone.

* `prngRandomR_undo`, `prngUndo_randomR` — the call and its inverse;
* `prng_never_merges` — so no two states lead to the same one, and two seeds never to
  the same state after equally many calls.
-/

namespace Frelay

/-- `LEFTROT`. -/
def leftrot (x k : UInt64) : UInt64 := (x <<< k) ||| (x >>> (64 - k))

/-- `PRNG_RANDOM_MAX`. -/
def PRNG_RANDOM_MAX : UInt64 := 0xffffffffffffffff

/-- `PRNG_RANDOM_FLEASEED`. -/
def PRNG_RANDOM_FLEASEED : UInt64 := 0xf1ea5eed

/-- `prng_random_ctx_t`. -/
structure PrngCtx where
  a : UInt64
  b : UInt64
  c : UInt64
  d : UInt64
  deriving DecidableEq

/-- `prng_random_r`: the number it returns, and the state it leaves. -/
def prngRandomR (ctx : PrngCtx) : UInt64 × PrngCtx :=
  let e := ctx.a - leftrot ctx.b 7
  let ctx := { ctx with a := ctx.b ^^^ leftrot ctx.c 13 }
  let ctx := { ctx with b := ctx.c + leftrot ctx.d 37 }
  let ctx := { ctx with c := ctx.d + e }
  let ctx := { ctx with d := e + ctx.a }
  (ctx.d &&& PRNG_RANDOM_MAX, ctx)

/-- `n` calls of `prng_random_r`, for the state alone. -/
def prngCalls (n : Nat) (ctx : PrngCtx) : PrngCtx := (fun ctx => (prngRandomR ctx).2)^[n] ctx

/-- `prng_srandom_r`: the seed, and 20 calls. -/
def prngSrandomR (ctx : PrngCtx) (seed : UInt64) : PrngCtx :=
  prngCalls 20 { ctx with a := PRNG_RANDOM_FLEASEED, b := seed, c := seed, d := seed }

/-! ## Undoing a call -/

/-- The state before the call that has left `ctx`. -/
def prngUndo (ctx : PrngCtx) : PrngCtx :=
  -- The assignments from the last to the first; each one used words that are known by then.
  let e := ctx.d - ctx.a
  let d := ctx.c - e
  let c := ctx.b - leftrot d 37
  let b := ctx.a ^^^ leftrot c 13
  { a := e + leftrot b 7, b := b, c := c, d := d }

theorem xor_xor_cancel (x y : UInt64) : x ^^^ y ^^^ y = x := by
  rw [UInt64.xor_assoc, UInt64.xor_self, UInt64.xor_zero]

theorem prngUndo_randomR (ctx : PrngCtx) : prngUndo (prngRandomR ctx).2 = ctx := by
  obtain ⟨a, b, c, d⟩ := ctx
  -- The first word comes back through `e`, which is found again.
  have he : a - leftrot b 7 + (b ^^^ leftrot c 13) - (b ^^^ leftrot c 13) = a - leftrot b 7 :=
    UInt64.add_sub_cancel _ _
  simp only [prngUndo, prngRandomR, he, UInt64.add_sub_cancel, xor_xor_cancel,
    UInt64.sub_add_cancel]

theorem prngRandomR_undo (ctx : PrngCtx) : (prngRandomR (prngUndo ctx)).2 = ctx := by
  obtain ⟨a, b, c, d⟩ := ctx
  simp only [prngUndo, prngRandomR, UInt64.add_sub_cancel, xor_xor_cancel, UInt64.sub_add_cancel]

/-! ## Runs -/

theorem prngRandomR_bijective : Function.Bijective fun ctx => (prngRandomR ctx).2 :=
  Function.bijective_iff_has_inverse.mpr ⟨prngUndo, prngUndo_randomR, prngRandomR_undo⟩

theorem prngCalls_injective (n : Nat) : Function.Injective (prngCalls n) :=
  prngRandomR_bijective.injective.iterate n

/-- The state that a seed leads to, whatever it was before. -/
theorem prngSrandomR_inj {ctx ctx' : PrngCtx} {seed seed' : UInt64} :
    prngSrandomR ctx seed = prngSrandomR ctx' seed' ↔ seed = seed' := by
  constructor
  · intro h
    -- The warm-up merges nothing, and the seed is one of the words it starts with.
    have hstart := prngCalls_injective 20 h
    exact congrArg PrngCtx.d hstart
  · rintro rfl
    rfl

/-- **No two states merge.** A call permutes the states, and after equally many calls two
generators are in the same state only if they were given the same seed. -/
theorem prng_never_merges :
    (Function.Bijective fun ctx => (prngRandomR ctx).2) ∧
      ∀ (n : Nat) (ctx ctx' : PrngCtx) (seed seed' : UInt64),
        prngCalls n (prngSrandomR ctx seed) = prngCalls n (prngSrandomR ctx' seed') ↔
          seed = seed' := by
  refine ⟨prngRandomR_bijective, fun n ctx ctx' seed seed' => ?_⟩
  rw [(prngCalls_injective n).eq_iff]
  exact prngSrandomR_inj

end Frelay

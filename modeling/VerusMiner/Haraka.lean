import VerusMiner.Simd

/-! Haraka over an arbitrary AES round: the two unkeyed permutations, the keyed
one, and the short path that computes only the word the target filter reads. -/

namespace VerusMiner

/-- The round constants `load_constants` writes to the global `rc`. -/
def loadConstants : List Vec :=
  [setEpi32 0x0684704c 0xe620c00a 0xb2c5fef0 0x75817b9d,
   setEpi32 0x8b66b4e1 0x88f3a06b 0x640f6ba4 0x2f08f717,
   setEpi32 0x3402de2d 0x53f28498 0xcf029d60 0x9f029114,
   setEpi32 0x0ed6eae6 0x2e7b4f08 0xbbf3bcaf 0xfd5b4f79,
   setEpi32 0xcbcfb0cb 0x4872448b 0x79eecd1c 0xbe397044,
   setEpi32 0x7eeacdee 0x6e9032b7 0x8d5335ed 0x2b8a057b,
   setEpi32 0x67c28f43 0x5e2e7cd0 0xe2412761 0xda4fef1b,
   setEpi32 0x2924d9b0 0xafcacc07 0x675ffde2 0x1fc70b3b,
   setEpi32 0xab4d63f1 0xe6867fe9 0xecdb8fca 0xb9d465ee,
   setEpi32 0x1c30bf84 0xd4b7cd64 0x5b2a404f 0xad037e33,
   setEpi32 0xb2cc0bb9 0x941723bf 0x69028b2e 0x8df69800,
   setEpi32 0xfa0478a6 0xde6f5572 0x4aaa9ec8 0x5c9d2d8a,
   setEpi32 0xdfb49f2b 0x6b772a12 0x0efa4f2e 0x29129fd4,
   setEpi32 0x1ea10344 0xf449a236 0x32d611ae 0xbb6a12ee,
   setEpi32 0xaf044988 0x4b050084 0x5f9600c9 0x9ca8eca6,
   setEpi32 0x21025ed8 0x9d199c4f 0x78a2c7e3 0x27e593ec,
   setEpi32 0xbf3aaaf8 0xa759c9b7 0xb9282ecd 0x82d40173,
   setEpi32 0x6260700d 0x6186b017 0x37f2efd9 0x10307d6b,
   setEpi32 0x5aca45c2 0x21300443 0x81c29153 0xf6fc9ac6,
   setEpi32 0x9223973c 0x226b68bb 0x2caf92e8 0x36d1943a,
   setEpi32 0xd3bf9238 0x225886eb 0x6cbab958 0xe51071b4,
   setEpi32 0xdb863ce5 0xaef0c677 0x933dfddd 0x24e1128d,
   setEpi32 0xbb606268 0xffeba09c 0x83e48de3 0xcb2212b1,
   setEpi32 0x734bd3dc 0xe2e4d19c 0x2db91a4e 0xc72bf77d,
   setEpi32 0x43bb47c3 0x61301b43 0x4b1415c4 0x2cb3924e,
   setEpi32 0xdba775a8 0xe707eff6 0x03b231dd 0x16eb6899,
   setEpi32 0x6df3614b 0x3c755977 0x8e5e2302 0x7eca472c,
   setEpi32 0xcda75a17 0xd6de7d77 0x6d1be5b9 0xb88617f9,
   setEpi32 0xec6b43f0 0x6ba8e9aa 0x9d6c069d 0xa946ee5d,
   setEpi32 0xcb1e6950 0xf957332b 0xa2531159 0x3bf327c1,
   setEpi32 0x2cee0c75 0x00da619c 0xe4ed0353 0x600ed0d9,
   setEpi32 0xf0b1a5a1 0x96e90cab 0x80bbbabc 0x63a4a350,
   setEpi32 0xae3db102 0x5e962988 0xab0dde30 0x938dca39,
   setEpi32 0x17bb8f38 0xd554a40b 0x8814f3a8 0x2e75b442,
   setEpi32 0x34bb8a5b 0x5f427fd7 0xaeb6b779 0x360a16f6,
   setEpi32 0x26f65241 0xcbe55438 0x43ce5918 0xffbaafde,
   setEpi32 0x4ce99a54 0xb9f3026a 0xa2ca9cf7 0x839ec978,
   setEpi32 0xae51a51a 0x1bdff7be 0x40c06e28 0x22901235,
   setEpi32 0xa0c1613c 0xba7ed22b 0xc173bc0f 0x48a659cf,
   setEpi32 0x756acc03 0x02288288 0x4ad6bdfd 0xe9c59da1]

def rc (i : Nat) : Vec := loadConstants.getD i 0

structure Quad where
  s0 : Vec
  s1 : Vec
  s2 : Vec
  s3 : Vec

def aes2 (aesenc : Vec → Vec → Vec) (rc : Nat → Vec) (s : Vec × Vec) (rci : Nat) : Vec × Vec :=
  (aesenc (aesenc s.1 (rc rci)) (rc (rci + 2)),
    aesenc (aesenc s.2 (rc (rci + 1))) (rc (rci + 3)))

def mix2 (s : Vec × Vec) : Vec × Vec := (unpackloEpi32 s.1 s.2, unpackhiEpi32 s.1 s.2)

def aes4 (aesenc : Vec → Vec → Vec) (rc : Nat → Vec) (s : Quad) (rci : Nat) : Quad :=
  { s0 := aesenc (aesenc s.s0 (rc rci)) (rc (rci + 4))
    s1 := aesenc (aesenc s.s1 (rc (rci + 1))) (rc (rci + 5))
    s2 := aesenc (aesenc s.s2 (rc (rci + 2))) (rc (rci + 6))
    s3 := aesenc (aesenc s.s3 (rc (rci + 3))) (rc (rci + 7)) }

def aes4Last (aesenc : Vec → Vec → Vec) (rc : Nat → Vec) (s : Quad) (rci : Nat) : Quad :=
  { s with s2 := aesenc (aesenc s.s2 (rc (rci + 2))) (rc (rci + 6)) }

def mix4 (s : Quad) : Quad :=
  let tmp := unpackloEpi32 s.s0 s.s1
  let s0 := unpackhiEpi32 s.s0 s.s1
  let s1 := unpackloEpi32 s.s2 s.s3
  let s2 := unpackhiEpi32 s.s2 s.s3
  { s3 := unpackloEpi32 s0 s2
    s0 := unpackhiEpi32 s0 s2
    s2 := unpackhiEpi32 s1 tmp
    s1 := unpackloEpi32 s1 tmp }

def mix4Last (s : Quad) : Quad :=
  let tmp := unpackloEpi32 s.s0 s.s1
  let s1 := unpackloEpi32 s.s2 s.s3
  { s with s1 := s1, s2 := unpackhiEpi32 s1 tmp }

def loadQuad (input : Mem) : Quad :=
  { s0 := load128 input 0, s1 := load128 input 16, s2 := load128 input 32, s3 := load128 input 48 }

def Quad.xor (s t : Quad) : Quad :=
  { s0 := s.s0 ^^^ t.s0, s1 := s.s1 ^^^ t.s1, s2 := s.s2 ^^^ t.s2, s3 := s.s3 ^^^ t.s3 }

def truncstore (out : Mem) (s : Quad) : Mem :=
  store128 (store128 out 0 (unpackhiEpi64 s.s0 s.s1)) 16 (unpackloEpi64 s.s2 s.s3)

section Permutations

variable (aesenc : Vec → Vec → Vec)

def haraka256 (input : Vec × Vec) : Vec × Vec :=
  let s := mix2 (aes2 aesenc rc input 0)
  let s := mix2 (aes2 aesenc rc s 4)
  let s := mix2 (aes2 aesenc rc s 8)
  let s := mix2 (aes2 aesenc rc s 12)
  let s := mix2 (aes2 aesenc rc s 16)
  (s.1 ^^^ input.1, s.2 ^^^ input.2)

def haraka512Keyed (out input : Mem) (rc : Nat → Vec) : Mem :=
  let s := mix4 (aes4 aesenc rc (loadQuad input) 0)
  let s := mix4 (aes4 aesenc rc s 8)
  let s := mix4 (aes4 aesenc rc s 16)
  let s := mix4 (aes4 aesenc rc s 24)
  let s := mix4 (aes4 aesenc rc s 32)
  truncstore out (s.xor (loadQuad input))

def haraka512 (out input : Mem) : Mem := haraka512Keyed aesenc out input rc

def haraka512KeyedHighword (input : Mem) (rc : Nat → Vec) : Word :=
  let s := mix4 (aes4 aesenc rc (loadQuad input) 0)
  let s := mix4 (aes4 aesenc rc s 8)
  let s := mix4 (aes4 aesenc rc s 16)
  let s := mix4Last (aes4 aesenc rc s 24)
  let s := aes4Last aesenc rc s 32
  let stateWord := le32dec (leBytes s.s2) 8
  let inputWord := le32dec input 52
  stateWord ^^^ inputWord

end Permutations

theorem aes4_congr (aesenc : Vec → Vec → Vec) {rc rc' : Nat → Vec} (s : Quad) {rci : Nat}
    (h : ∀ j < 8, rc (rci + j) = rc' (rci + j)) : aes4 aesenc rc s rci = aes4 aesenc rc' s rci := by
  simp only [aes4, show rc rci = rc' rci from h 0 (by omega), h 1 (by omega), h 2 (by omega),
    h 3 (by omega), h 4 (by omega), h 5 (by omega), h 6 (by omega), h 7 (by omega)]

theorem loadQuad_congr {input input' : Mem} (h : ∀ i < 64, input i = input' i) :
    loadQuad input = loadQuad input' := by
  simp only [loadQuad, Quad.mk.injEq]
  refine ⟨?_, ?_, ?_, ?_⟩ <;> exact load128_congr fun i hi => h _ (by omega)

theorem truncstore_at (out out' : Mem) (s : Quad) {i : Nat} (hi : i < 32) :
    truncstore out s i = truncstore out' s i := by
  simp only [truncstore, store128, memcpy]
  split_ifs <;> first | rfl | omega

theorem haraka512Keyed_congr (aesenc : Vec → Vec → Vec) {out out' input input' : Mem}
    {rc rc' : Nat → Vec} (hin : ∀ i < 64, input i = input' i) (hrc : ∀ i < 40, rc i = rc' i)
    {i : Nat} (hi : i < 32) :
    haraka512Keyed aesenc out input rc i = haraka512Keyed aesenc out' input' rc' i := by
  have hr (rci : Nat) (s : Quad) (hle : rci ≤ 32) : aes4 aesenc rc s rci = aes4 aesenc rc' s rci :=
    aes4_congr aesenc s fun j hj => hrc _ (by omega)
  simp only [haraka512Keyed, loadQuad_congr hin, hr 0 _ (by omega), hr 8 _ (by omega),
    hr 16 _ (by omega), hr 24 _ (by omega), hr 32 _ (by omega)]
  exact truncstore_at _ _ _ hi

theorem lane32_mix4_s3 (s : Quad) : lane32 (mix4 s).s3 1 = lane32 s.s2 2 := by
  rw [mix4, (lane32_unpackloEpi32 _ _).2.1, (lane32_unpackhiEpi32 _ _).1]

theorem aes4Last_mix4Last_s2 (aesenc : Vec → Vec → Vec) (rc : Nat → Vec) (s : Quad) (rci : Nat) :
    (aes4Last aesenc rc (mix4Last s) rci).s2 = (aes4 aesenc rc (mix4 s) rci).s2 := rfl

theorem truncstore_highword (out : Mem) (s : Quad) :
    le32dec (truncstore out s) 28 = lane32 s.s3 1 := by
  rw [← lane32_unpackloEpi64 s.s2 s.s3, truncstore]
  exact lane32_store128 (store128 out 0 (unpackhiEpi64 s.s0 s.s1)) 16 _ (k := 3) (by omega)

/-- The pruned rounds compute the most significant word of the full output. -/
theorem haraka512KeyedHighword_eq (aesenc : Vec → Vec → Vec) (out input : Mem) (rc : Nat → Vec) :
    haraka512KeyedHighword aesenc input rc = le32dec (haraka512Keyed aesenc out input rc) 28 := by
  have hin : le32dec input 52 = lane32 (loadQuad input).s3 1 :=
    (lane32_load128 input 48 (k := 1) (by omega)).symm
  have hword (v : Vec) : le32dec (leBytes v) 8 = lane32 v 2 := le32dec_leBytes v 2
  simp only [haraka512KeyedHighword, haraka512Keyed, truncstore_highword, Quad.xor, lane32_xor,
    lane32_mix4_s3, hword, hin, aes4Last_mix4Last_s2]

end VerusMiner

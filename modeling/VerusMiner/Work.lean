import VerusMiner.HexText

/-! The unit of work a thread scans, and the share difficulty stored in it. -/

namespace VerusMiner

structure Work where
  data : Mem
  target : Mem
  jobId : CString
  pooln : Byte
  validNonces : Byte
  submitNonceId : Byte
  nonces : Nat → Word
  sharediff : Nat → Float
  shareratio : Nat → Float
  targetdiff : Float
  height : Word
  extra : Mem
  solution : Mem

def zeroWork : Work where
  data := fun _ => 0
  target := fun _ => 0
  jobId := []
  pooln := 0
  validNonces := 0
  submitNonceId := 0
  nonces := fun _ => 0
  sharediff := fun _ => 0.0
  shareratio := fun _ => 0.0
  targetdiff := 0.0
  height := 0
  extra := fun _ => 0
  solution := fun _ => 0

/-- The index in `data` of the word scanned as the nonce. -/
def verusNonceOffset : Nat := 30

def maxNonces : Int := 2

def getdouble (pn : Mem) : Float :=
  ((List.range 8).foldl
    (fun (s : Float × Float) i =>
      (s.1 + s.2 * Float.ofNat (le32dec pn (4 * i)).toNat, s.2 * 4294967296.0))
    (0.0, 1.0)).1

def bnHashTargetRatio (optShowdiff : Bool) (hash target : Mem) : Float :=
  if !optShowdiff then 0.0
  else
    let dhash := getdouble hash
    if dhash > 0.0 then getdouble target / dhash else dhash

def bnStoreHashTargetRatio (optShowdiff : Bool) (hash target : Mem) (work : Work) (nonce : Int) :
    Work :=
  if !optShowdiff then work
  else if nonce < 0 ∨ nonce ≥ maxNonces then work
  else
    let ratio := bnHashTargetRatio optShowdiff hash target
    { work with
      shareratio := Function.update work.shareratio nonce.toNat ratio
      sharediff := Function.update work.sharediff nonce.toNat (work.targetdiff * ratio) }

end VerusMiner

import VerusMiner.Job

/-! The message a pool shows, which tells the height of the block. -/

namespace VerusMiner

/-- `sscanf` with the format `equihash %s block %u`: the symbol, as far as one
was found, and the height. -/
def scanShowMessage (data : CString) : Option CString × Option Word :=
  match data.dropPrefix? "equihash".toList with
  | none => (none, none)
  | some rest =>
    let symbol := scanWord rest
    if symbol = [] then (none, none)
    else
      let rest := (rest.dropWhile isspace).drop symbol.length
      match (rest.dropWhile isspace).dropPrefix? "block".toList with
      | none => (some symbol, none)
      | some rest => (some symbol, scanU rest)

structure ShowMessage where
  ret : Bool
  sctx : StratumCtx
  line : Option CString
  accesses : List Access

def showHeight (sctx : StratumCtx) (params : Json) : StratumCtx × List Access :=
  match jsonStringValue (jsonArrayGet params 0) with
  | none | some [] => (sctx, [])
  | some data =>
    let (symbol, height) := scanShowMessage data
    let accesses := match symbol with
      | none => []
      | some symbol => [Access.write 32 (symbol.length + 1)]
    let height := height.getD 0
    (if height ≠ 0 then { sctx with job := { sctx.job with height := height } } else sctx, accesses)

/-- The answer, if the message has an id, is printed by `jsonDumps` and sent by
`stratumSendLine`. -/
def verusStratumShowMessage (jsonDumps : Json → CString) (stratumSendLine : CString → Bool)
    (sctx : StratumCtx) (id : Option Json) (params : Json) : ShowMessage :=
  let shown := showHeight sctx params
  match id with
  | none | some .null => { ret := true, sctx := shown.1, line := none, accesses := shown.2 }
  | some id =>
    let s := jsonDumps (.object
      [("id".toList, id), ("error".toList, .null), ("result".toList, .bool true)])
    { ret := stratumSendLine s, sctx := shown.1, line := some s, accesses := shown.2 }

/-- What stands where the symbol is expected. -/
def symbolOf (data : CString) : CString :=
  ((data.dropPrefix? "equihash".toList).map scanWord).getD []

theorem scanShowMessage_symbol (data : CString) :
    (scanShowMessage data).1 = if symbolOf data = [] then none else some (symbolOf data) := by
  rw [scanShowMessage, symbolOf]
  cases data.dropPrefix? "equihash".toList with
  | none => rfl
  | some rest =>
    simp only [Option.map_some, Option.getD_some]
    split_ifs with hsymbol
    · rfl
    · split <;> rfl

/-- Only the symbol is copied, and it fits its array up to 31 characters. -/
theorem verusStratumShowMessage_safe_iff (jsonDumps : Json → CString)
    (stratumSendLine : CString → Bool) (sctx : StratumCtx) (id : Option Json) (params : Json) :
    (∀ a ∈ (verusStratumShowMessage jsonDumps stratumSendLine sctx id params).accesses, a.Safe) ↔
      ∀ data, jsonStringValue (jsonArrayGet params 0) = some data → (symbolOf data).length ≤ 31 := by
  have haccesses : (verusStratumShowMessage jsonDumps stratumSendLine sctx id params).accesses =
      (showHeight sctx params).2 := by
    cases id with
    | none => rfl
    | some id => cases id <;> rfl
  rw [haccesses, showHeight]
  cases hdata : jsonStringValue (jsonArrayGet params 0) with
  | none => simp
  | some data =>
    cases data with
    | nil =>
      have hsymbol : (symbolOf []).length ≤ 31 := by decide +kernel
      simp [hsymbol]
    | cons c data =>
      simp only [scanShowMessage_symbol, Option.some.injEq, forall_eq']
      split_ifs with hsymbol
      · simp [hsymbol]
      · simp only [List.forall_mem_singleton, Access.Safe]
        omega

end VerusMiner

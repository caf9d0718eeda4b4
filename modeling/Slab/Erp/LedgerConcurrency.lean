import Slab.Erp.Ledger
import Slab.Txn.Guard

/-!
# Concurrent stock updates

Transactions that call `receive`, `forceIssue` and `issue`, interleaved statement by
statement. The read of a stock locks its row if the row is there, so an update is lost in
one case only: the read found no row, and when the upsert executes another transaction has
inserted it.

## Main definitions

- `StockCall`, `stockTransaction` — a transaction as its list of ledger calls
- `booked` — the signed quantities that the committed transactions of a record booked
- `stockGuard` — each stock is its initial value plus what is booked on it
- `Key.isInventory` — the rows that an upsert has to have locked before it replaces them

## Main results

- `stockTransaction_safe` — one transaction, whatever the others do between its statements
- `stock_of_run` — no update is lost along a run whose upserts replace locked rows only
- `stock_lost` — two first receipts of an item at the same time
-/

namespace Slab

open Txn

/-- A call of the ledger by a transaction. -/
inductive StockCall where
  | receive (cmd : LedgerCommand)
  | forceIssue (cmd : LedgerCommand)
  | issue (cmd : LedgerCommand)

namespace StockCall

def command : StockCall → LedgerCommand
  | receive cmd => cmd
  | forceIssue cmd => cmd
  | issue cmd => cmd

/-- The signed quantity of the call. -/
def delta : StockCall → ℤ
  | receive cmd => cmd.quantity
  | forceIssue cmd => -cmd.quantity
  | issue cmd => -cmd.quantity

/-- The call is about this stock. -/
def At (c : StockCall) (item warehouse : ID) : Bool :=
  c.command.itemId = item && c.command.warehouseId = warehouse

def run (ar : Arith) : StockCall → Handler Unit
  | receive cmd => InventoryLedger.receive ar cmd
  | forceIssue cmd => InventoryLedger.forceIssue ar cmd
  | issue cmd => InventoryLedger.issue ar cmd

end StockCall

/-- A transaction that makes its ledger calls in order; it may also be lost at any point. -/
def stockTransaction (ar : Arith) (calls : List StockCall) : Handler Unit :=
  Prog.forEach calls (StockCall.run ar)

/-- The sum of the signed quantities of the calls on one stock. -/
def deltaSum (calls : List StockCall) (item warehouse : ID) : ℤ :=
  ((calls.filter fun c => c.At item warehouse).map StockCall.delta).sum

/-- What the committed transactions of a record booked on one stock. -/
def booked : List (Event (List StockCall) Answer) → ID → ID → ℤ
  | [], _, _ => 0
  | .committed calls :: es, item, wh => deltaSum calls item wh + booked es item wh
  | .called _ _ :: es, item, wh => booked es item wh

def Key.isInventory : Key → Bool
  | .inventory _ _ => true
  | _ => false

/-- An `inventories` row guards its stock: the initial quantity plus what is booked. -/
def stockGuard (ar : Arith) (initial : Db) : Guard Db Key ℤ (List StockCall) Answer where
  proj k db := match k with
    | .inventory item warehouse => db.stock item warehouse
    | _ => 0
  about k e := match k, e with
    | .inventory item warehouse, .committed calls => calls.any fun c => c.At item warehouse
    | _, _ => false
  inv k q log := match k with
    | .inventory item warehouse =>
      q = ar.norm (initial.stock item warehouse + booked log item warehouse)
    | _ => True
  moves _ _ _ := True
  moves_refl _ _ := trivial
  moves_trans _ _ _ _ _ _ := trivial
  pre _ _ _ := True
  assumes _ own olds _ := ∀ k ∈ olds, k.isInventory = true → k ∈ own

/-! ## Booked quantities -/

theorem booked_append (es fs : List (Event (List StockCall) Answer)) (item warehouse : ID) :
    booked (es ++ fs) item warehouse = booked es item warehouse + booked fs item warehouse := by
  induction es with
  | nil => simp [booked]
  | cons e es ih =>
    cases e with
    | called q a => exact ih
    | committed calls => simp only [List.cons_append, booked, ih, add_assoc]

theorem deltaSum_append (xs ys : List StockCall) (item warehouse : ID) :
    deltaSum (xs ++ ys) item warehouse =
      deltaSum xs item warehouse + deltaSum ys item warehouse := by
  simp [deltaSum]

theorem deltaSum_eq_zero {calls : List StockCall} {item warehouse : ID}
    (h : ∀ c ∈ calls, c.At item warehouse = false) : deltaSum calls item warehouse = 0 := by
  have : calls.filter (fun c => c.At item warehouse) = [] :=
    List.filter_eq_nil_iff.mpr fun c hc => by simp [h c hc]
  simp [deltaSum, this]

/-- Transactions that are not about a stock book nothing on it. -/
theorem booked_log (ar : Arith) (initial : Db) (es : List (Event (List StockCall) Answer))
    (item warehouse : ID) :
    booked ((stockGuard ar initial).log (.inventory item warehouse) es) item warehouse =
      booked es item warehouse := by
  unfold Guard.log
  induction es with
  | nil => rfl
  | cons e es ih =>
    cases e with
    | called q a => simpa [stockGuard, booked] using ih
    | committed calls =>
      by_cases h : calls.any fun c => c.At item warehouse
      · simpa [stockGuard, booked, h] using ih
      · have h0 : deltaSum calls item warehouse = 0 := by
          refine deltaSum_eq_zero fun c hc => ?_
          simpa using fun hat => h (List.any_eq_true.mpr ⟨c, hc, hat⟩)
        simpa [stockGuard, booked, h, h0] using ih

/-! ## One transaction among others -/

/-- What a transaction knows after the calls `done`: it owns the stocks it has changed, and
each stock it owns has gained what the calls booked on it. -/
structure Accounts (ar : Arith) (initial : Db) (done : List StockCall) (own : List Key) (v : Db)
    (tr : List (Event (List StockCall) Answer)) : Prop where
  stock : ∀ item warehouse, Key.inventory item warehouse ∈ own →
    v.stock item warehouse = ar.norm (initial.stock item warehouse +
      (booked tr item warehouse + deltaSum done item warehouse))
  owns : ∀ c ∈ done, Key.inventory c.command.itemId c.command.warehouseId ∈ own

section Transaction

variable {ar : Arith} {initial : Db} {r : List StockCall} {done : List StockCall}
  {own : List Key} {v v' : Db}
  {tr tr' : List (Event (List StockCall) Answer)}

/-- Committed data: the stock of a key that nobody owns. -/
theorem stock_of_holds {item warehouse : ID}
    (h : (stockGuard ar initial).Holds (.inventory item warehouse) v tr) :
    v.stock item warehouse =
      ar.norm (initial.stock item warehouse + booked tr item warehouse) := by
  have h' : v.stock item warehouse = ar.norm (initial.stock item warehouse +
    booked ((stockGuard ar initial).log (.inventory item warehouse) tr) item warehouse) := h
  rwa [booked_log] at h'

/-- Calls on stocks that a transaction does not own have not been made. -/
theorem Accounts.deltaSum_of_not_mem (h : Accounts ar initial done own v tr) {item warehouse : ID}
    (hk : Key.inventory item warehouse ∉ own) : deltaSum done item warehouse = 0 := by
  refine deltaSum_eq_zero fun c hc => ?_
  by_contra hat
  simp only [StockCall.At, Bool.and_eq_true, decide_eq_true_eq, Bool.not_eq_false] at hat
  exact hk (hat.1 ▸ hat.2 ▸ h.owns c hc)

/-- What is known of a stock, whether it is owned or committed. -/
theorem Accounts.stock_eq (h : Accounts ar initial done own v tr)
    (hr : (stockGuard ar initial).Rely own v tr v' tr') (item warehouse : ID) :
    v'.stock item warehouse = ar.norm (initial.stock item warehouse +
      (booked tr' item warehouse + deltaSum done item warehouse)) := by
  by_cases hk : Key.inventory item warehouse ∈ own
  · obtain ⟨hp, hl⟩ := hr.kept _ hk
    have hs : v'.stock item warehouse = v.stock item warehouse := hp
    rw [hs, h.stock item warehouse hk, ← booked_log ar initial tr', hl, booked_log]
  · rw [h.deltaSum_of_not_mem hk, add_zero]
    exact stock_of_holds (hr.rest _ hk)

/-- The others do not disturb the accounts, and locking more rows adds to them. -/
theorem Accounts.grow (h : Accounts ar initial done own v tr) {own' : List Key}
    (hsub : own ⊆ own') (hr : (stockGuard ar initial).Rely own v tr v' tr') :
    Accounts ar initial done own' v' tr' :=
  ⟨fun item warehouse _ => h.stock_eq hr item warehouse, fun c hc => hsub (h.owns c hc)⟩

/-- The key of a ledger command. -/
def LedgerCommand.key (cmd : LedgerCommand) : Key := .inventory cmd.itemId cmd.warehouseId

/-- What a transaction knows when it is about to write `cmd`: the stock is still `before`, or
it was not there to be locked. -/
structure Ready (ar : Arith) (initial : Db) (done : List StockCall) (cmd : LedgerCommand)
    (before : ℤ) (own : List Key) (v : Db) (tr : List (Event (List StockCall) Answer)) : Prop where
  accounts : Accounts ar initial done own v tr
  locked : cmd.key ∈ own → v.stock cmd.itemId cmd.warehouseId = before
  missing : cmd.key ∉ own → before = 0

theorem Ready.rely {cmd : LedgerCommand} {before : ℤ}
    (h : Ready ar initial done cmd before own v tr)
    (hr : (stockGuard ar initial).Rely own v tr v' tr') :
    Ready ar initial done cmd before own v' tr' := by
  refine ⟨h.accounts.grow (List.Subset.refl _) hr, fun hk => ?_, h.missing⟩
  have hs : v'.stock cmd.itemId cmd.warehouseId = v.stock cmd.itemId cmd.warehouseId :=
    (hr.kept _ hk).1
  rw [hs, h.locked hk]

/-- Answers from outside book nothing. -/
theorem Ready.called {cmd : LedgerCommand} {before : ℤ}
    (h : Ready ar initial done cmd before own v tr) (q : Ask) (a : Answer q) :
    Ready ar initial done cmd before own v (tr ++ [.called q a]) := by
  refine ⟨⟨fun item warehouse hk => ?_, h.accounts.owns⟩, h.locked, h.missing⟩
  rw [booked_append]
  simpa [booked] using h.accounts.stock item warehouse hk

/-- The write of a command replaces its own stock and no other. -/
theorem frame_upsertInventory (own : List Key) (invId item warehouse : ID) (q : ℤ) :
    (stockGuard ar initial).Frame (own ++ [.inventory item warehouse])
      (Db.upsertInventory invId item warehouse q) := by
  have hproj : ∀ k x, (stockGuard ar initial).proj k (Db.upsertInventory invId item warehouse q x) =
      if k = .inventory item warehouse then q else (stockGuard ar initial).proj k x := by
    intro k x
    split
    · next hk =>
      subst hk
      exact Db.stock_upsertInventory_self
    · next hk =>
      cases k with
      | inventory i w =>
        refine Db.stock_upsertInventory_of_ne fun heq => hk ?_
        obtain ⟨rfl, rfl⟩ := Prod.mk.inj heq
        rfl
      | _ => rfl
  refine ⟨fun k hk x => ?_, fun x y hxy k hk => ?_⟩
  · rw [hproj, if_neg fun heq => hk (by simp [heq])]
  · rw [hproj, hproj, hxy k hk]

theorem writeTransaction_neutral (cmd : LedgerCommand) (before after : ℤ) :
    (stockGuard ar initial).Neutral (InventoryLedger.writeTransaction cmd before after) := by
  refine ⟨fun _ _ => trivial, fun id => ⟨fun k => by cases k <;> rfl, ?_⟩⟩
  refine fun _ _ => ⟨fun k x => ?_, trivial⟩
  cases k <;> rfl

/-- The upsert adds the call's quantity to what the stock really is, because the row it
replaces has been locked since the read. -/
theorem upsertAndLog_safe {c : StockCall} {before : ℤ}
    (h : Ready ar initial done c.command before own v tr) :
    (stockGuard ar initial).Safe r (fun _ => Accounts ar initial (done ++ [c]))
      (InventoryLedger.upsertAndLog c.command (ar.norm (before + c.delta)) before) own v tr := by
  refine Guard.Safe.ask_bind fun v₁ tr₁ hr₁ => ⟨trivial, fun invId => ⟨?_, ?_⟩⟩
  · exact Guard.Hears.of_none fun k => by cases k <;> rfl
  refine Guard.Safe.upsert_bind fun v₂ tr₂ hr₂ hcov =>
    ⟨⟨frame_upsertInventory own _ _ _ _, fun _ _ => trivial⟩, ?_⟩
  have hready := ((h.rely hr₁).called .newId invId).rely hr₂
  -- the quantity that was read is still there
  have hbefore : before = v₂.stock c.command.itemId c.command.warehouseId := by
    by_cases hk : c.command.key ∈ own
    · exact (hready.locked hk).symm
    · rw [hready.missing hk]
      refine (Db.stock_of_has_eq_false ?_).symm
      by_contra hhas
      exact hk (hcov c.command.key (by simp [hhas, LedgerCommand.key]) rfl)
  have hnow := ((h.rely hr₁).called .newId invId).accounts.stock_eq hr₂ c.command.itemId
    c.command.warehouseId
  refine (writeTransaction_neutral _ _ _).safe fun _ own' v' tr' hsub hkept hrest => ?_
  -- accounts right after the upsert
  have hacc : Accounts ar initial (done ++ [c]) (own ++ [c.command.key])
      (v₂.upsertInventory invId c.command.itemId c.command.warehouseId
        (ar.norm (before + c.delta))) tr₂ := by
    refine ⟨fun item warehouse hk => ?_, fun c' hc' => ?_⟩
    · rw [deltaSum_append]
      by_cases heq : (item, warehouse) = (c.command.itemId, c.command.warehouseId)
      · obtain ⟨rfl, rfl⟩ := Prod.mk.inj heq
        have hone : deltaSum [c] c.command.itemId c.command.warehouseId = c.delta := by
          simp [deltaSum, StockCall.At]
        rw [Db.stock_upsertInventory_self, hone, hbefore, hnow, ar.norm_add]
        congr 1
        omega
      · have hone : deltaSum [c] item warehouse = 0 := by
          refine deltaSum_eq_zero fun c' hc' => ?_
          rw [List.mem_singleton.mp hc']
          by_contra hat
          simp only [StockCall.At, Bool.and_eq_true, decide_eq_true_eq, Bool.not_eq_false] at hat
          exact heq (by rw [hat.1, hat.2])
        rw [Db.stock_upsertInventory_of_ne heq, hone, add_zero]
        exact ((h.rely hr₁).called .newId invId).accounts.stock_eq hr₂ item warehouse
    · rcases List.mem_append.mp hc' with hc' | hc'
      · exact List.mem_append_left _ (h.accounts.owns c' hc')
      · rw [List.mem_singleton.mp hc']
        exact List.mem_append_right _ (List.mem_singleton_self _)
  exact hacc.grow hsub ⟨hkept, hrest⟩

/-- The read of a stock: locked if it is there, and 0 if it is not. -/
theorem readQty_safe {c : StockCall} {f : ℤ → Handler Unit}
    {post : Unit → List Key → Db → List (Event (List StockCall) Answer) → Prop}
    (hacc : Accounts ar initial done own v tr)
    (h : ∀ before own v tr, Ready ar initial done c.command before own v tr →
      (stockGuard ar initial).Safe r post (f before) own v tr) :
    (stockGuard ar initial).Safe r post
      (InventoryLedger.readQty c.command.itemId c.command.warehouseId >>= f) own v tr := by
  refine Guard.Safe.bind (Guard.Safe.selectForUpdate_bind fun v₁ tr₁ hr₁ => ?_)
  refine Guard.Safe.ret fun v₂ tr₂ hr₂ => h _ _ _ _ (Ready.rely ⟨?_, ?_, ?_⟩ hr₂)
  · exact hacc.grow (List.subset_append_left _ _) hr₁
  · exact fun _ => rfl
  · -- nothing was locked because there was no row
    intro hk
    cases hhas : v₁.inventories.has (c.command.itemId, c.command.warehouseId) with
    | false => exact Db.stock_of_has_eq_false hhas
    | true =>
      rw [hhas] at hk
      exact absurd (List.mem_append_right _ (List.mem_singleton_self _)) hk

/-- One call of a transaction. -/
theorem call_safe (c : StockCall) (hacc : Accounts ar initial done own v tr) :
    (stockGuard ar initial).Safe r (fun _ => Accounts ar initial (done ++ [c])) (c.run ar)
      own v tr := by
  cases c with
  | receive cmd =>
    exact readQty_safe (c := .receive cmd) hacc fun before own v tr hready =>
      upsertAndLog_safe (c := .receive cmd) hready
  | forceIssue cmd =>
    refine readQty_safe (c := .forceIssue cmd) hacc fun before own v tr hready => ?_
    rw [Arith.sub, sub_eq_add_neg]
    exact upsertAndLog_safe (c := .forceIssue cmd) hready
  | issue cmd =>
    refine readQty_safe (c := .issue cmd) hacc fun before own v tr hready => ?_
    refine Guard.Safe.ensure_bind fun _ => ?_
    rw [Arith.sub, sub_eq_add_neg]
    exact upsertAndLog_safe (c := .issue cmd) hready

theorem calls_safe (calls : List StockCall) (hacc : Accounts ar initial done own v tr) :
    (stockGuard ar initial).Safe r (fun _ => Accounts ar initial (done ++ calls))
      (stockTransaction ar calls) own v tr := by
  induction calls generalizing done own v tr with
  | nil =>
    refine Guard.Safe.ret fun v' tr' hr => ?_
    rw [List.append_nil]
    exact hacc.grow (List.Subset.refl _) hr
  | cons c calls ih =>
    refine Guard.Safe.bind ((call_safe c hacc).mono fun _ own v tr hacc' => ?_)
    have := ih hacc'
    rwa [List.append_assoc] at this

/-- A transaction restores the invariant of every stock it has changed. -/
theorem stockTransaction_safe (calls : List StockCall) (v : Db)
    (tr : List (Event (List StockCall) Answer)) :
    (stockGuard ar initial).Safe calls (fun _ => (stockGuard ar initial).Done calls)
      (stockTransaction ar calls) [] v tr := by
  have hstart : Accounts ar initial [] [] v tr :=
    ⟨fun _ _ hk => absurd hk List.not_mem_nil, fun _ hc => absurd hc List.not_mem_nil⟩
  refine (calls_safe calls hstart).mono fun _ own v tr hacc =>
    ⟨fun k hk => ?_, fun k hk => ⟨?_, trivial⟩⟩
  · cases k with
    | inventory item warehouse =>
      change v.stock item warehouse = ar.norm (initial.stock item warehouse +
        booked ((stockGuard ar initial).log (.inventory item warehouse) _) item warehouse)
      rw [booked_log, booked_append, hacc.stock item warehouse hk]
      simp [booked]
    | _ => exact trivial
  · cases k with
    | inventory item warehouse =>
      have hany : (calls.any fun c => c.At item warehouse) = true := hk
      obtain ⟨c, hc, hat⟩ := List.any_eq_true.mp hany
      simp only [StockCall.At, Bool.and_eq_true, decide_eq_true_eq] at hat
      exact hat.1 ▸ hat.2 ▸ hacc.owns c hc
    | _ => cases hk

end Transaction

/-! ## Runs -/

/-- Along every run whose upserts replace only rows that their own transaction has locked,
each stock is its initial quantity plus the signed quantities of all committed calls, as the
machine adds them up; that is, exactly so whenever the sum fits in the word. -/
theorem stock_of_run {ar : Arith} {initial : Db}
    {c : Config Db Key Answer AppError Unit (List StockCall)}
    (hword : ∀ item warehouse, ar.Fits (initial.stock item warehouse))
    (hr : Run (stockTransaction ar) (fun c a => c.Covered (fun k => k.isInventory = true) a)
      (Config.init initial) c) (item warehouse : ID) :
    c.db.stock item warehouse =
      ar.norm (initial.stock item warehouse + booked c.trace item warehouse) ∧
    (c.db.stock item warehouse = initial.stock item warehouse + booked c.trace item warehouse ↔
      ar.Fits (initial.stock item warehouse + booked c.trace item warehouse)) := by
  have hinit : ∀ k, (stockGuard ar initial).Holds k initial [] := by
    intro k
    cases k with
    | inventory i w =>
      change initial.stock i w = ar.norm (initial.stock i w + 0)
      rw [add_zero]
      exact (hword i w).symm
    | _ => exact trivial
  have hsound := Guard.Sound.run (fun calls v tr _ => stockTransaction_safe calls v tr)
    (fun _ _ h => h) (Guard.Sound.init hinit) hr
  have hstock := stock_of_holds (hsound.holds (.inventory item warehouse))
  refine ⟨hstock, ?_⟩
  rw [hstock]
  exact Iff.rfl

/-- Steps of the sessions in this order. -/
def schedule (starts : List (List StockCall)) (order : List ℕ) :
    List (Action (List StockCall) Answer) :=
  starts.map .start ++ order.map fun i => .step i (numbered 100 0)

/-- Two transactions receive an item that has no row yet. -/
def firstReceipts : List (List StockCall) :=
  [[.receive ⟨7, 1, 5, .inbound, "purchase_receipt", 21, none⟩],
    [.receive ⟨7, 1, 8, .inbound, "purchase_receipt", 22, none⟩]]

/-- Both read before either writes; both commit, and the first receipt is lost. -/
theorem stock_lost :
    ∃ c, Run (stockTransaction .exact) (fun _ _ => True) (Config.init Db.empty) c ∧
      booked c.trace 7 1 = 13 ∧ c.db.stock 7 1 = 8 := by
  have hplay : ((Config.init Db.empty).play (stockTransaction .exact) (fun _ _ => true)
      (schedule firstReceipts [0, 1, 0, 0, 0, 0, 0, 1, 1, 1, 1, 1])).map (fun c =>
        (booked c.trace 7 1, c.db.stock 7 1)) = some (13, 8) := by
    decide
  obtain ⟨c, hc, hfacts⟩ := Option.map_eq_some_iff.mp hplay
  obtain ⟨hbooked, hstock⟩ := Prod.mk.inj hfacts
  exact ⟨c, Run.of_play (fun _ _ _ => trivial) .refl hc, hbooked, hstock⟩

/-- When the second one reads after the first has committed, neither is lost. -/
theorem stock_of_run_firstReceipts :
    ∃ c, Run (stockTransaction .exact) (fun c a => c.Covered (fun k => k.isInventory = true) a)
        (Config.init Db.empty) c ∧
      booked c.trace 7 1 = 13 ∧ c.db.stock 7 1 = Arith.exact.norm (Db.empty.stock 7 1 + 13) := by
  have hplay : ((Config.init Db.empty).play (stockTransaction .exact)
      (Config.covers Key.isInventory)
      (schedule firstReceipts [0, 0, 0, 0, 0, 0, 1, 1, 1, 1, 1, 1])).map
        (fun c => booked c.trace 7 1) = some 13 := by
    decide
  obtain ⟨c, hc, hbooked⟩ := Option.map_eq_some_iff.mp hplay
  have hrun := Run.of_play (fun _ _ => Config.covered_of_covers) .refl hc
  refine ⟨c, hrun, hbooked, ?_⟩
  have hword : ∀ item warehouse, Arith.exact.Fits (Db.empty.stock item warehouse) := fun _ _ => rfl
  have := (stock_of_run hword hrun 7 1).1
  rwa [hbooked] at this

end Slab

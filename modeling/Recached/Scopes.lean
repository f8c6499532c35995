import Recached.Propagation

/-!
# Sync scopes

Which mutations a connection with scopes is sent, and which keys every command is checked against
before a scoped connection may run it.
-/

namespace Recached

/-- A mutation of these keys is visible to a connection with these scopes; one without keys is
visible to all. -/
def scopesMatch (scopes keys : List String) : Bool :=
  keys.isEmpty || keys.any fun k => scopes.any fun p => globMatch p k

inductive CommandScope where
  | keyLess
  | keys (keys : List String)
  | admin
deriving DecidableEq

def commandScope : Command → CommandScope
  | .ping _ | .auth _ | .hello _ | .multi | .exec | .discard | .subscribe _ | .unsubscribe _
  | .pSubscribe _ | .pUnsubscribe _ | .publish _ _ | .sync _ | .qSub _ | .qUnsub _ | .quit
  | .client _ | .commandQuery _ | .cluster _ | .module _ | .memory _ | .unknown _ => .keyLess
  | .keys _ | .scan _ _ _ | .dbSize | .flushDb | .save | .bgSave | .lastSave | .info _ | .config _
  | .pubSub _ | .replicaOfNoOne => .admin
  | .eSet k _ | .set k _ _ | .get k | .append k _ | .strlen k | .getRange k _ _ | .getSet k _
  | .setNx k _ | .setEx k _ _ | .pSetEx k _ _ | .incr k | .decr k | .incrBy k _ | .decrBy k _
  | .expire k _ | .pExpire k _ | .expireAt k _ | .pExpireAt k _ | .ttl k | .pTtl k | .persist k
  | .type k | .memoryUsage k | .hSet k _ | .hGet k _ | .hGetAll k | .hDel k _ | .hKeys k | .hVals k
  | .hLen k | .hIncrBy k _ _ | .hIncrByFloat k _ _ | .hExists k _ | .hSetNx k _ _ | .hMGet k _
  | .hScan k _ | .sScan k _ | .zScan k _ | .lPush k _ | .rPush k _ | .lPushX k _ | .rPushX k _
  | .lPop k _ | .rPop k _ | .lRange k _ _ | .lLen k | .lIndex k _ | .lSet k _ _ | .lRem k _ _
  | .lTrim k _ _ | .sAdd k _ | .sMembers k | .sRem k _ | .sCard k | .sIsMember k _ | .sMIsMember k _
  | .sPop k _ | .sRandMember k _ | .zAdd k _ _ | .zRange k _ _ _ | .zRevRange k _ _ _
  | .zRangeByScore k _ _ _ _ | .zRevRangeByScore k _ _ _ _ | .zScore k _ | .zMScore k _ | .zRank k _
  | .zRevRank k _ | .zRem k _ | .zCard k | .zIncrBy k _ _ | .zCount k _ _ | .rlSet k _ _
  | .rlCheck k _ | .jSet k _ _ | .jGet k _ | .jMerge k _ => .keys [k]
  | .del keys | .unlink keys | .mGet keys | .exists keys | .sInter keys | .sUnion keys | .sDiff keys
  | .watch keys | .unwatch keys => .keys keys
  | .mSet pairs => .keys (pairs.map Prod.fst)
  | .rename src dst | .sMove src dst _ => .keys [src, dst]
  | .sInterStore dst keys | .sUnionStore dst keys | .sDiffStore dst keys => .keys (keys ++ [dst])
  | .dedup _ _ inner => commandScope inner

/-- The scope check of a connection in strict mode: whether it may run a command. -/
def strictScopeAllows (scopes : Option (List String)) (cmd : Command) : Bool :=
  match commandScope cmd with
  | .keyLess => true
  | .admin => false
  | .keys keys =>
    match scopes with
    | none => false
    | some scopes => keys.all fun k => scopesMatch scopes [k]

/-- The push filter of a connection: with scopes, mutations of matching keys; without, everything
unless the connection is in strict mode. -/
def pushVisible (strict : Bool) (scopes : Option (List String)) (connId : ℕ) (push : SyncPush) : Bool :=
  push.origin != connId &&
    match scopes with
    | some scopes => scopesMatch scopes push.keys
    | none => !strict

end Recached

/-!
# The fixed part of a generated module

Besides its tables, a generated module holds a dispatcher class that runs the machine from the
tables alone. Its text is the same for every machine but for the name of the class and of the
machine.
-/

namespace Statechart.Codegen

/-- The rest of the documentation of the class. -/
def classHeadRest : List String := [
  "",
  "    ``guard(text, event, payload) -> bool`` resolves guard texts; a guard",
  "    that raises counts as false. ``on_action(text)`` receives every",
  "    executed action in order.",
  "    \"\"\"",
  ""]

/-- The constructor and the property for the current state. -/
def constructorLines : List String := [
  "    def __init__(self, guard=None, on_action=None):",
  "        self._guard = guard if guard is not None else _unresolved_guard",
  "        self._on_action = on_action",
  "        self.state = None",
  "        self.clock = 0",
  "        self._started = False",
  "        self._queue = []",
  "        # timer -> [due, sequence, owner]",
  "        self._armed = \x7b\x7d",
  "        self._sequence = 0",
  "",
  "    @property",
  "    def current(self):",
  "        return State(self.state) if self.state is not None else None",
  ""]

/-- Starting the machine and posting events. -/
def startLines : List String := [
  "    def start(self):",
  "        \"\"\"Enter the initial state; returns the executed actions.\"\"\"",
  "        self.state = None",
  "        self.clock = 0",
  "        self._started = True",
  "        del self._queue[:]",
  "        self._armed.clear()",
  "        self._sequence = 0",
  "        executed = []",
  "        visited = set()",
  "        self._enter(INITIAL, executed, visited)",
  "        self._settle(None, None, executed, visited)",
  "        self._claim_timers()",
  "        return tuple(executed)",
  "",
  "    def post_event(self, event, payload=None):",
  "        if not self._started:",
  "            raise RuntimeError(\"post_event() called before start()\")",
  "        if isinstance(event, Event):",
  "            event = event.value",
  "        self._queue.append((event, payload))",
  ""]

/-- Taking one step. -/
def stepLines : List String := [
  "    def step(self):",
  "        \"\"\"Process one event: None if none pending, False if" ++
    " unmatched, True otherwise.\"\"\"",
  "        if not self._started:",
  "            raise RuntimeError(\"step() called before start()\")",
  "        if not self._queue:",
  "            return None",
  "        name, payload = self._queue.pop(0)",
  "        for event, guard, actions, target in TRANSITIONS.get(self.state, ()):",
  "            if event == name and (guard is None or self._check(guard, name, payload)):",
  "                break",
  "        else:",
  "            return False",
  "        saved = (self.state, dict((t, list(e)) for t, e in" ++
    " self._armed.items()), self._sequence)",
  "        executed = []",
  "        visited = set()",
  "        try:",
  "            self._take(actions, target, name, payload, executed, visited)",
  "            self._settle(name, payload, executed, visited)",
  "            self._claim_timers()",
  "        except Exception:",
  "            # roll back; the event stays at the head of the queue",
  "            self.state, self._armed, self._sequence = saved",
  "            self._queue.insert(0, (name, payload))",
  "            raise",
  "        return True",
  ""]

/-- Letting time pass. -/
def tickLines : List String := [
  "    def tick(self, elapsed=1):",
  "        \"\"\"Advance logical time; expired timers post their events.\"\"\"",
  "        if not self._started:",
  "            raise RuntimeError(\"tick() called before start()\")",
  "        self.clock += elapsed",
  "        while True:",
  "            due = [(entry[0], entry[1], timer) for timer, entry in" ++
    " self._armed.items() if entry[0] <= self.clock]",
  "            if not due:",
  "                break",
  "            due_at, _, timer = min(due)",
  "            duration, event, periodic = TIMERS[timer]",
  "            self._queue.append((event, None))",
  "            if periodic:",
  "                self._armed[timer][0] = due_at + duration",
  "            else:",
  "                del self._armed[timer]",
  ""]

/-- Asking guards, taking a transition, following completion transitions. -/
def takeLines : List String := [
  "    def _check(self, guard, name, payload):",
  "        try:",
  "            return bool(self._guard(guard, name, payload))",
  "        except Exception:",
  "            return False",
  "",
  "    def _take(self, actions, target, name, payload, executed, visited):",
  "        self._exit(self.state, executed)",
  "        self._run(actions, executed)",
  "        while target in CHOICES:",
  "            if target in visited:",
  "                raise RuntimeError(\"cycle at choice %r\" % target)",
  "            visited.add(target)",
  "            for condition, branch_actions, branch_target in CHOICES[target]:",
  "                if condition is None or self._check(condition, name, payload):",
  "                    break",
  "            self._run(branch_actions, executed)",
  "            target = branch_target",
  "        self._enter(target, executed, visited)",
  "",
  "    def _settle(self, name, payload, executed, visited):",
  "        while True:",
  "            for guard, actions, target in COMPLETIONS.get(self.state, ()):",
  "                if guard is None or self._check(guard, name, payload):",
  "                    break",
  "            else:",
  "                return",
  "            self._take(actions, target, name, payload, executed, visited)",
  ""]

/-- Entering and leaving states. -/
def enterLines : List String := [
  "    def _enter(self, state, executed, visited):",
  "        if state in visited:",
  "            raise RuntimeError(\"cycle at state %r\" % state)",
  "        visited.add(state)",
  "        self.state = state",
  "        self._run(ENTRY_ACTIONS.get(state, ()), executed)",
  "",
  "    def _exit(self, state, executed):",
  "        self.state = None",
  "        self._run(EXIT_ACTIONS.get(state, ()), executed)",
  "        for timer in [t for t, entry in self._armed.items() if entry[2] == state]:",
  "            del self._armed[timer]",
  ""]

/-- Running actions and giving timers to the state arrived at. -/
def runLines : List String := [
  "    def _run(self, actions, executed):",
  "        for action in actions:",
  "            executed.append(action)",
  "            if self._on_action is not None:",
  "                self._on_action(action)",
  "            command = TIMER_COMMANDS.get(action)",
  "            if command is None:",
  "                continue",
  "            operation, timer = command",
  "            if operation == 'start':",
  "                self._sequence += 1",
  "                self._armed[timer] = [self.clock + TIMERS[timer][0]," ++
    " self._sequence, self.state]",
  "            else:",
  "                self._armed.pop(timer, None)",
  "",
  "    def _claim_timers(self):",
  "        for entry in self._armed.values():",
  "            if entry[2] is None:",
  "                entry[2] = self.state"]

/-- The dispatcher class for a machine. -/
def dispatcher (className machine : String) : List String :=
  ["def _unresolved_guard(guard, event, payload):",
    "    raise KeyError(guard)",
    "",
    "",
    "class " ++ className ++ ":",
    "    \"\"\"Run-to-completion dispatcher for ``" ++ machine ++ "``."] ++
  classHeadRest ++ constructorLines ++ startLines ++ stepLines ++ tickLines ++ takeLines ++
    enterLines ++ runLines

end Statechart.Codegen

set_option autoImplicit false

/-! # Contract templates

A new file can be started from one of a few built-in contracts. A template is found by its
identifier, in which capital and small ASCII letters are the same.
-/

namespace SolidityTools

/-- A contract to start from. -/
structure Template where
  /-- The identifier by which the template is chosen. -/
  id : String
  /-- The name for display. -/
  name : String
  description : String
  /-- The source text. -/
  code : String
deriving DecidableEq, Repr

namespace Template

/-- The text with the given lines, each ended by a line feed. -/
def textOf (lines : List String) : String := String.join (lines.map (· ++ "\n"))

/-- An empty contract. -/
def blank : Template where
  id := "blank"
  name := "Blank Contract"
  description := "Empty Solidity contract"
  code := textOf [
    "// SPDX-License-Identifier: MIT",
    "pragma solidity ^0.8.19;",
    "",
    "contract MyContract \x7b",
    "\x7d"]

/-- A token with transfers and allowances. -/
def token : Template where
  id := "erc20"
  name := "ERC20 Token"
  description := "Minimal ERC20 token with transfers and allowances"
  code := textOf [
    "// SPDX-License-Identifier: MIT",
    "pragma solidity ^0.8.19;",
    "",
    "contract MyToken \x7b",
    "    string public name = \"My Token\";",
    "    string public symbol = \"MTK\";",
    "    uint8 public constant DECIMALS = 18;",
    "    uint256 private _totalSupply;",
    "",
    "    mapping(address => uint256) private _balances;",
    "    mapping(address => mapping(address => uint256)) private _allowances;",
    "",
    "    event Transfer(address indexed from, address indexed to, uint256 value);",
    "    event Approval(address indexed owner, address indexed spender, uint256 value);",
    "",
    "    constructor(uint256 initialSupply) \x7b",
    "        _totalSupply = initialSupply;",
    "        _balances[msg.sender] = initialSupply;",
    "        emit Transfer(address(0), msg.sender, initialSupply);",
    "    \x7d",
    "",
    "    function totalSupply() external view returns (uint256) \x7b",
    "        return _totalSupply;",
    "    \x7d",
    "",
    "    function balanceOf(address account) external view returns (uint256) \x7b",
    "        return _balances[account];",
    "    \x7d",
    "",
    "    function transfer(address to, uint256 amount) external returns (bool) \x7b",
    "        require(_balances[msg.sender] >= amount, \"Insufficient balance\");",
    "        _balances[msg.sender] -= amount;",
    "        _balances[to] += amount;",
    "        emit Transfer(msg.sender, to, amount);",
    "        return true;",
    "    \x7d",
    "",
    "    function approve(address spender, uint256 amount) external returns (bool) \x7b",
    "        _allowances[msg.sender][spender] = amount;",
    "        emit Approval(msg.sender, spender, amount);",
    "        return true;",
    "    \x7d",
    "",
    "    function transferFrom(address from, address to, uint256 amount) external returns (bool) \x7b",
    "        require(_allowances[from][msg.sender] >= amount, \"Insufficient allowance\");",
    "        require(_balances[from] >= amount, \"Insufficient balance\");",
    "        _allowances[from][msg.sender] -= amount;",
    "        _balances[from] -= amount;",
    "        _balances[to] += amount;",
    "        emit Transfer(from, to, amount);",
    "        return true;",
    "    \x7d",
    "\x7d"]

/-- A single value that can be set and read. -/
def storage : Template where
  id := "simple-storage"
  name := "Simple Storage"
  description := "Store and read a single value"
  code := textOf [
    "// SPDX-License-Identifier: MIT",
    "pragma solidity ^0.8.19;",
    "",
    "contract SimpleStorage \x7b",
    "    uint256 private _storedData;",
    "",
    "    event DataStored(uint256 data);",
    "",
    "    function set(uint256 x) public \x7b",
    "        _storedData = x;",
    "        emit DataStored(x);",
    "    \x7d",
    "",
    "    function get() public view returns (uint256) \x7b",
    "        return _storedData;",
    "    \x7d",
    "\x7d"]

/-- Proposals on which each address votes once. -/
def voting : Template where
  id := "voting"
  name := "Voting Contract"
  description := "Proposals voted on once per address"
  code := textOf [
    "// SPDX-License-Identifier: MIT",
    "pragma solidity ^0.8.19;",
    "",
    "contract Voting \x7b",
    "    struct Proposal \x7b",
    "        string name;",
    "        uint256 voteCount;",
    "    \x7d",
    "",
    "    Proposal[] public proposals;",
    "    mapping(address => bool) public hasVoted;",
    "",
    "    constructor(string[] memory proposalNames) \x7b",
    "        for (uint256 i = 0; i < proposalNames.length; i++) \x7b",
    "            proposals.push(Proposal(\x7bname: proposalNames[i], voteCount: 0\x7d));",
    "        \x7d",
    "    \x7d",
    "",
    "    function vote(uint256 proposal) external \x7b",
    "        require(!hasVoted[msg.sender], \"Already voted\");",
    "        hasVoted[msg.sender] = true;",
    "        proposals[proposal].voteCount += 1;",
    "    \x7d",
    "\x7d"]

/-- The built-in templates, in the order in which they are listed. -/
def all : List Template := [blank, token, storage, voting]

/-- The template with an identifier, ASCII case aside. -/
def find? (id : String) : Option Template :=
  all.find? fun t => t.id.toList.map Char.toLower == id.toList.map Char.toLower

end Template

end SolidityTools
